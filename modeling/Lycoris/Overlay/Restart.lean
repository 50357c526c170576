import Lycoris.Overlay.Enrollment
import Lycoris.Overlay.Merge
import Lycoris.Overlay.Trust

/-!
Loading the registry from storage when the daemon starts (`daemon/src/overlay.rs`). The cluster id is
taken from the first stored record without an authorizer, and validation accepts recoveries and
revocations without one: the registry comes back whatever the order of the records exactly when all
records without an authorizer are of the node the cluster is named after.
-/

namespace Lycoris.Overlay
open Lib

/-- The errors of the loader. -/
inductive OverlayError where
  | missingGenesis
  | authorization (error : AuthorizationError)

def registryFromRecords (P : Primitives) (records : List AuthorizationRecord) :
    Except OverlayError AuthorizationRegistry := do
  let genesis ← okOr (records.find? fun record => record.authorizer.isNone) .missingGenesis
  let clusterId := ClusterId.fromGenesis P genesis.nodeId
  (AuthorizationRegistry.fromRecords P clusterId records).mapError .authorization

namespace AuthorizationRegistry

variable {P : Primitives} {g restored : AuthorizationRegistry} {records : List AuthorizationRecord}

theorem fromRecords_all (wf : WellFormed P g) (valid : Valid P g) (perm : records.Perm g.records.vals) :
    fromRecords P g.clusterId records = .ok g := by
  have toward : Toward g (new g.clusterId) records := by
    refine ⟨⟨rfl, fun r member => absurd member (KeyedMap.not_mem_empty r)⟩, ?_, ?_⟩
    · intro r member
      exact KeyedMap.mem_vals.mp (perm.mem_iff.mp member)
    · intro r member
      exact .inr (perm.mem_iff.mpr (KeyedMap.mem_vals.mpr member))
  obtain ⟨count, merged, _⟩ := mergeRounds_toward wf valid 0 toward
  unfold fromRecords merge
  rw [merged]

/-- The cluster id of a loaded registry is that of the first record without an authorizer. -/
theorem clusterId_loaded (loaded : registryFromRecords P records = .ok restored) :
    ∃ genesis, records.find? (fun record => record.authorizer.isNone) = some genesis ∧
      restored.clusterId = ClusterId.fromGenesis P genesis.nodeId := by
  obtain ⟨genesis, found, answer⟩ := bind_ok.mp loaded
  refine ⟨genesis, okOr_ok.mp found, ?_⟩
  exact (Enrollment.fromRecords_extends (mapError_ok.mp answer)).cluster

/-- A registry that holds its genesis comes back in every order of its records exactly when no record
without an authorizer is of another node than the cluster is named after. -/
theorem restart_round_trip_iff (P : Primitives) (cluster : ClusterId) (calls : List RegistryCall)
    {genesis : AuthorizationRecord} (founded : Genesis P ((new cluster).replay P calls) genesis) :
    let g := (new cluster).replay P calls
    (∀ records : List AuthorizationRecord, records.Perm g.records.vals →
      ∃ restored, registryFromRecords P records = .ok restored ∧ restored.clusterId = g.clusterId ∧
        ∀ r, r ∈ restored ↔ r ∈ g) ↔
      ∀ r ∈ g, r.authorizer = none → ClusterId.fromGenesis P r.nodeId = g.clusterId := by
  intro g
  have wf : WellFormed P g := wellFormed_replay cluster calls
  have valid : Valid P g := valid_replay cluster calls
  constructor
  · intro returns r member unsigned
    -- The record may be the first that storage yields.
    obtain ⟨before, after, split⟩ := List.append_of_mem (KeyedMap.mem_vals.mpr member)
    have perm : (r :: (before ++ after)).Perm g.records.vals := by
      rw [split]
      exact List.perm_middle.symm
    obtain ⟨restored, loaded, cluster', _⟩ := returns (r :: (before ++ after)) perm
    obtain ⟨first, found, named⟩ := clusterId_loaded loaded
    rw [List.find?_cons_of_pos (by simp [unsigned])] at found
    cases found
    exact named.symm.trans cluster'
  · intro alone records perm
    have listed : genesis ∈ records := perm.mem_iff.mpr (KeyedMap.mem_vals.mpr founded.present)
    cases found : records.find? fun record => record.authorizer.isNone with
    | none =>
      have signed := List.find?_eq_none.mp found genesis listed
      rw [founded.unsigned] at signed
      exact absurd rfl signed
    | some first =>
      have unsigned : first.authorizer = none := by simpa using List.find?_some found
      have member : first ∈ g := KeyedMap.mem_vals.mp (perm.mem_iff.mp (List.mem_of_find?_eq_some found))
      refine ⟨g, ?_, rfl, fun r => Iff.rfl⟩
      refine bind_ok.mpr ⟨first, okOr_ok.mpr found, mapError_ok.mpr ?_⟩
      rw [alone first member unsigned]
      exact fromRecords_all wf valid perm

section Takeover
open Transparent

theorem founded_restarts :
    let g := (new cluster).replay primitives [.merge [admission, founding]]
    ∀ records : List AuthorizationRecord, records.Perm g.records.vals →
      ∃ restored, registryFromRecords primitives records = .ok restored ∧
        restored.clusterId = g.clusterId ∧ ∀ r, r ∈ restored ↔ r ∈ g := by
  have present : founding ∈ (new cluster).replay primitives [.merge [admission, founding]] :=
    KeyedMap.mem_vals.mp (by decide +kernel)
  have founded := genesis_of_root (wellFormed_replay cluster _) present rfl rfl
  refine (restart_round_trip_iff primitives cluster _ founded).mpr fun r member => ?_
  have all : ∀ r ∈ ((new cluster).replay primitives [.merge [admission, founding]]).records.vals,
      r.authorizer = none → ClusterId.fromGenesis primitives r.nodeId =
        ((new cluster).replay primitives [.merge [admission, founding]]).clusterId := by decide +kernel
  exact all r (KeyedMap.mem_vals.mpr member)

/-- The thief's recovery is the first record without an authorizer in the order of the ids, so the
records of a registry with its genesis are loaded for another cluster, which refuses them. -/
theorem takeover_stops_restart :
    let g := (new cluster).replay primitives [.merge [founding, admission], .insert takeover]
    (∃ genesis, Genesis primitives g genesis) ∧
      ¬ ∃ restored, registryFromRecords primitives g.records.vals = .ok restored ∧
        restored.clusterId = g.clusterId ∧ ∀ r, r ∈ restored ↔ r ∈ g := by
  intro g
  have present : founding ∈ g := KeyedMap.mem_vals.mp (by decide +kernel)
  refine ⟨⟨founding, genesis_of_root (wellFormed_replay cluster _) present rfl rfl⟩, ?_⟩
  rintro ⟨restored, loaded, same, _⟩
  obtain ⟨first, found, named⟩ := clusterId_loaded loaded
  have thief : g.records.vals.find? (fun record => record.authorizer.isNone) = some takeover := by
    decide +kernel
  rw [thief] at found
  cases found
  have other : ClusterId.fromGenesis primitives takeover.nodeId ≠ g.clusterId := by decide +kernel
  exact other (named.symm.trans same)

end Takeover

end AuthorizationRegistry

end Lycoris.Overlay
