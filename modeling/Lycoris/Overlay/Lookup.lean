import Lycoris.Overlay.Enrolled

/-!
The two lookups between nodes and peers (`overlay/src/authorization/registry.rs`). Each scans the
statuses of the whole record graph and has an ambiguity rule of its own; on every registry they are
inverse to each other, also where several nodes hold one key.
-/

namespace Lycoris.Overlay
open Lib

namespace AuthorizationRegistry

variable {P : Primitives} {g : AuthorizationRegistry} {n : NodeId} {peer : P.PeerId}

theorem activePeerForNode_eq_some :
    g.activePeerForNode P n = some peer ↔
      ∃ r, g.status n = .active r ∧ P.peerIdFromBytes r.peerId = some peer ∧
        g.nodeForPeer P peer = some n := by
  unfold activePeerForNode
  constructor
  · intro answer
    obtain ⟨r, active, answer⟩ := Option.bind_eq_some_iff.mp answer
    obtain ⟨read, decoded, answer⟩ := Option.bind_eq_some_iff.mp answer
    split at answer
    · rename_i back
      cases answer
      exact ⟨r, activeRecordForNode_eq_some.mp active, decoded, back⟩
    · cases answer
  · rintro ⟨r, active, decoded, back⟩
    refine Option.bind_eq_some_iff.mpr ⟨r, activeRecordForNode_eq_some.mpr active, ?_⟩
    refine Option.bind_eq_some_iff.mpr ⟨peer, decoded, ?_⟩
    rw [if_pos back]

/-- The peer of a node is the peer that leads back to it. -/
theorem activePeerForNode_iff (wf : WellFormed P g)
    (inverts : ∀ p, P.peerIdFromBytes (P.peerIdToBytes p) = some p) :
    g.activePeerForNode P n = some peer ↔ g.nodeForPeer P peer = some n := by
  rw [activePeerForNode_eq_some]
  constructor
  · rintro ⟨r, active, decoded, back⟩
    exact back
  · intro back
    obtain ⟨⟨r, active, bytes⟩, _⟩ := (nodeForPeer_eq_some wf).mp back
    refine ⟨r, active, ?_, back⟩
    rw [bytes]
    exact inverts peer

/-- On every registry the lookups are inverse, so no two nodes share a peer and no node has two. -/
theorem lookups_inverse (P : Primitives) (cluster : ClusterId) (calls : List RegistryCall)
    (inverts : ∀ p, P.peerIdFromBytes (P.peerIdToBytes p) = some p) :
    let g := (new cluster).replay P calls
    (∀ n p, g.activePeerForNode P n = some p ↔ g.nodeForPeer P p = some n) ∧
      (∀ m n p, g.activePeerForNode P m = some p → g.activePeerForNode P n = some p → m = n) ∧
      ∀ n p q, g.nodeForPeer P p = some n → g.nodeForPeer P q = some n → p = q := by
  intro g
  have wf : WellFormed P g := wellFormed_replay cluster calls
  have inverse : ∀ n p, g.activePeerForNode P n = some p ↔ g.nodeForPeer P p = some n :=
    fun n p => activePeerForNode_iff wf inverts
  refine ⟨inverse, ?_, ?_⟩
  · intro m n p first second
    have node := (inverse m p).mp first
    rw [(inverse n p).mp second] at node
    exact (Option.some.inj node).symm
  · intro n p q first second
    have found := (inverse n p).mpr first
    rw [(inverse n q).mpr second] at found
    exact (Option.some.inj found).symm

section Shared
open Transparent

/-- A second node admitted under the member's key. -/
def twinAdmission : AuthorizationRecord :=
  signed ((AuthorizationBody.active cluster (identity 3 3).publicIdentity 0 .admission).setAuthorizer
    founding admission) founder

/-- The identity that starts with the third key and rotates to the member's. -/
def twinRotation : AuthorizationRecord :=
  signed ((AuthorizationRecord.successorBody twinAdmission (identity 3 2) .rotate).setAuthorizer
    twinAdmission twinAdmission) (identity 3 3)

/-- While the member holds its key alone the lookups agree on it; once another node rotates into the
key, both refuse. -/
theorem lookups_inverse_twin :
    let alone := (new cluster).replay primitives [.merge [founding, admission, twinAdmission]]
    let shared := (new cluster).replay primitives
      [.merge [founding, admission, twinAdmission], .insert twinRotation]
    alone.activePeerForNode primitives member.nodeId = some member.peerId ∧
      alone.nodeForPeer primitives member.peerId = some member.nodeId ∧
      shared.status member.nodeId = .active admission ∧
      shared.status (identity 3 3).nodeId = .active twinRotation ∧
      shared.activePeerForNode primitives member.nodeId ≠ some member.peerId := by
  intro alone shared
  have before := (lookups_inverse primitives cluster
    [.merge [founding, admission, twinAdmission]] fun _ => rfl).1
  have after := (lookups_inverse primitives cluster
    [.merge [founding, admission, twinAdmission], .insert twinRotation] fun _ => rfl).1
  have found : alone.activePeerForNode primitives member.nodeId = some member.peerId := by
    decide +kernel
  have ambiguous : shared.nodeForPeer primitives member.peerId = none := by decide +kernel
  refine ⟨found, (before _ _).mp found, by decide +kernel, by decide +kernel, ?_⟩
  intro still
  have back := (after _ _).mp still
  rw [ambiguous] at back
  cases back

end Shared

end AuthorizationRegistry

end Lycoris.Overlay
