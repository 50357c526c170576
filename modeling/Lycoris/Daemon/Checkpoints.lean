import Lycoris.Daemon.RegistryCommit
import Lycoris.Lib.Runs
import Lycoris.Overlay.Checkpoint

/-!
Registry checkpoints between nodes (`daemon/src/overlay.rs`). A broadcast sends the whole registry to the
connected nodes; each of them merges it and answers with its own, and one that learned something broadcasts in
turn. An answer is merged without a broadcast.
-/

namespace Lycoris.Daemon
open Lib Overlay
open AuthorizationRegistry (Extends WellFormed Valid)

/-! ### One exchange -/

/-- The answer to a checkpoint; the text of a refusal is only logged. -/
inductive RegistryResponse where
  | applied (records : List AuthorizationRecord)
  | rejected

section Merge

variable (P : Primitives)

/-- `merge_registry_checkpoint`: the answer, whether the registry grew, and the enrollment afterwards. -/
def mergeRegistryCheckpoint (current : Enrollment) (records : List AuthorizationRecord) (committed : Bool) :
    (RegistryResponse × Bool) × Enrollment :=
  match current.mergeCheckpoint P records with
  | (.ok changed, proposed) =>
    if 0 < changed then
      if current.registry.records.vals = proposed.registry.records.vals ∨ committed then
        ((.applied proposed.registry.records.vals, true), proposed)
      else ((.rejected, false), current)
    else ((.applied current.registry.records.vals, false), current)
  | (.error _, _) => ((.rejected, false), current)

end Merge

section Spec

variable {P : Primitives} {current : Enrollment} {records : List AuthorizationRecord} {committed : Bool}

/-- A merge only adds records of the checkpoint, at least one when it reports that the registry grew, and answers
with the registry as it is then. -/
theorem merge_spec :
    (∀ r, r ∈ (mergeRegistryCheckpoint P current records committed).2.registry →
      r ∈ current.registry ∨ r ∈ records) ∧
    AuthorizationRegistry.Grows P (fun _ => True) current.registry
      (mergeRegistryCheckpoint P current records committed).2.registry ∧
    current.registry.records.size + (mergeRegistryCheckpoint P current records committed).1.2.toNat ≤
      (mergeRegistryCheckpoint P current records committed).2.registry.records.size ∧
    ∀ answer, (mergeRegistryCheckpoint P current records committed).1.1 = .applied answer →
      answer = (mergeRegistryCheckpoint P current records committed).2.registry.records.vals := by
  have offered : AuthorizationRegistry.Grows P (· ∈ records) current.registry
      (current.registry.merge P records).2 := AuthorizationRegistry.merge_grows fun _ member => member
  have kept : (∀ r, r ∈ current.registry → r ∈ current.registry ∨ r ∈ records) ∧
      AuthorizationRegistry.Grows P (fun _ => True) current.registry current.registry ∧
      current.registry.records.size + false.toNat ≤ current.registry.records.size :=
    ⟨fun _ => Or.inl, .refl, le_refl _⟩
  rw [mergeRegistryCheckpoint, Enrollment.mergeCheckpoint]
  cases merged : current.registry.merge P records with
  | mk result registry =>
    rw [merged] at offered
    cases result with
    | error error => exact ⟨kept.1, kept.2.1, kept.2.2, fun answer none => by cases none⟩
    | ok changed =>
      have counted := AuthorizationRegistry.merge_counts merged
      dsimp only
      split
      · split
        · refine ⟨fun r => offered.mem, offered.mono fun _ _ => trivial, ?_, ?_⟩
          · show current.registry.records.size + 1 ≤ registry.records.size
            omega
          · rintro answer ⟨⟩
            rfl
        · exact ⟨kept.1, kept.2.1, kept.2.2, fun answer none => by cases none⟩
      · refine ⟨kept.1, kept.2.1, kept.2.2, ?_⟩
        rintro answer ⟨⟩
        rfl

theorem merge_unchanged (same : (mergeRegistryCheckpoint P current records committed).1.2 = false) :
    (mergeRegistryCheckpoint P current records committed).2.registry = current.registry := by
  rw [mergeRegistryCheckpoint] at same ⊢
  split at same
  · split at same
    · split at same
      · cases same
      · rename_i grew refused
        rw [if_pos grew, if_neg refused]
    · rename_i stayed
      rw [if_neg stayed]
  · rfl

theorem mem_of_same_size {g h : AuthorizationRegistry} (grown : Extends g h)
    (same : g.records.size = h.records.size) {r : AuthorizationRecord} (member : r ∈ h) : r ∈ g := by
  have part : g.records.vals ⊆ h.records.vals := fun s listed =>
    KeyedMap.mem_vals.mpr (grown.records s (KeyedMap.mem_vals.mp listed))
  have distinct : g.records.vals.Nodup := List.Nodup.of_map _ g.records.nodup_keys
  have full := (distinct.subperm part).perm_of_length_le (by
    rw [KeyedMap.length_vals, KeyedMap.length_vals, same])
  exact KeyedMap.mem_vals.mp (full.mem_iff.mpr (KeyedMap.mem_vals.mpr member))

/-- The checkpoint of a part of a valid registry is not refused, and taken over as a whole. -/
theorem merge_part_spec {h part : AuthorizationRegistry} (valid : Valid P h) (wf : WellFormed P part)
    (inside : Extends part h) (within : Extends current.registry h) :
    (mergeRegistryCheckpoint P current part.records.vals true).1.1 =
      .applied (mergeRegistryCheckpoint P current part.records.vals true).2.registry.records.vals ∧
    Extends (mergeRegistryCheckpoint P current part.records.vals true).2.registry h ∧
    ∀ r ∈ part, r ∈ (mergeRegistryCheckpoint P current part.records.vals true).2.registry := by
  obtain ⟨changed, joined, answer, grown, inside', all⟩ :=
    AuthorizationRegistry.merge_part valid wf inside within
  have counted := AuthorizationRegistry.merge_counts answer
  rw [mergeRegistryCheckpoint, Enrollment.mergeCheckpoint, answer]
  dsimp only
  split
  · rw [if_pos (Or.inr rfl)]
    exact ⟨rfl, inside', all⟩
  · rename_i unchanged
    refine ⟨rfl, within, fun r member => mem_of_same_size grown ?_ (all r member)⟩
    omega

end Spec

/-! ### The network -/

/-- A node as the checkpoint gossip sees it: its links, the links it noticed last, and how many broadcasts it is
about to make. -/
structure RegistryPeer where
  enrollment : Enrollment
  connected : List NodeId
  known : List NodeId
  due : Nat

def RegistryPeer.registry (peer : RegistryPeer) : AuthorizationRegistry := peer.enrollment.registry

structure CheckpointRequest where
  source : NodeId
  destination : NodeId
  records : List AuthorizationRecord

structure CheckpointReply where
  source : NodeId
  destination : NodeId
  response : RegistryResponse

/-- The counters only record what happened: the broadcasts of a node, and what made them due, a new link or a
checkpoint it learned from. -/
structure RegistryNetwork where
  peer : NodeId → RegistryPeer
  requests : List CheckpointRequest
  replies : List CheckpointReply
  broadcasts : NodeId → Nat
  noticed : NodeId → Nat
  cascades : NodeId → Nat

inductive RegistryEvent (P : Primitives) where
  /-- The links of a node change. -/
  | link (node : NodeId) (connected : List NodeId)
  /-- `run_registry_gossip` wakes up. -/
  | notice (node : NodeId)
  /-- A due broadcast; it stops after `count` nodes when no more envelopes can be made. -/
  | broadcast (node : NodeId) (count : Nat)
  | receive (request : Nat) (committed : Bool)
  | merge (reply : Nat) (committed : Bool)
  | loseRequest (request : Nat)
  | loseReply (reply : Nat)
  | enroll (node : NodeId) (call : EnrollmentCall P) (committed : Bool)

namespace RegistryNetwork

variable {P : Primitives} (A : AdmissionPrimitives)

/-- `handle_admission`: a refused call and a failed commit leave the enrollment as it was. -/
def admitted (enrollment : Enrollment) (call : EnrollmentCall P) (committed : Bool) : Enrollment :=
  match enrollment.serve A call with
  | (.rejected, _) => enrollment
  | (.challenge _, served) => served
  | (_, served) => if committed then served else enrollment

def withPeer (network : RegistryNetwork) (node : NodeId) (peer : RegistryPeer) : RegistryNetwork :=
  { network with peer := Function.update network.peer node peer }

def count (counter : NodeId → Nat) (node : NodeId) (more : Bool) : NodeId → Nat :=
  Function.update counter node (counter node + more.toNat)

def step (network : RegistryNetwork) : RegistryEvent P → RegistryNetwork
  | .link node connected => network.withPeer node { network.peer node with connected := connected }
  | .notice node =>
    let peer := network.peer node
    let grew := peer.connected.any fun other => !peer.known.contains other
    { network.withPeer node { peer with known := peer.connected, due := peer.due + grew.toNat } with
      noticed := count network.noticed node grew }
  | .broadcast node limit =>
    let peer := network.peer node
    if peer.due = 0 then network
    else
      { network.withPeer node { peer with due := peer.due - 1 } with
        requests := network.requests ++ (peer.connected.take limit).map fun destination =>
          ⟨node, destination, peer.registry.records.vals⟩
        broadcasts := count network.broadcasts node true }
  | .receive index committed =>
    match network.requests[index]? with
    | some request =>
      let peer := network.peer request.destination
      let merged := mergeRegistryCheckpoint P peer.enrollment request.records committed
      { network.withPeer request.destination
          { peer with enrollment := merged.2, due := peer.due + merged.1.2.toNat } with
        requests := network.requests.eraseIdx index
        replies := network.replies ++ [⟨request.destination, request.source, merged.1.1⟩]
        cascades := count network.cascades request.destination merged.1.2 }
    | none => network
  | .merge index committed =>
    match network.replies[index]? with
    | some ⟨_, destination, .applied records⟩ =>
      let peer := network.peer destination
      let merged := mergeRegistryCheckpoint P peer.enrollment records committed
      { network.withPeer destination { peer with enrollment := merged.2 } with
        replies := network.replies.eraseIdx index }
    | some ⟨_, _, .rejected⟩ => { network with replies := network.replies.eraseIdx index }
    | none => network
  | .loseRequest index => { network with requests := network.requests.eraseIdx index }
  | .loseReply index => { network with replies := network.replies.eraseIdx index }
  | .enroll node call committed =>
    let peer := network.peer node
    network.withPeer node { peer with enrollment := admitted A peer.enrollment call committed }

def run (network : RegistryNetwork) (events : List (RegistryEvent P)) : RegistryNetwork :=
  events.foldl (step A) network

/-- No message of the gossip is under way and no broadcast is due. -/
structure Settled (network : RegistryNetwork) : Prop where
  requests : network.requests = []
  replies : network.replies = []
  due : ∀ node, (network.peer node).due = 0

/-- A step that loses nothing, in which every commit goes through. -/
def Keeps (network : RegistryNetwork) : RegistryEvent P → Prop
  | .broadcast node limit => (network.peer node).connected.length ≤ limit
  | .receive _ committed => committed = true
  | .merge _ committed => committed = true
  | .loseRequest _ => False
  | .loseReply _ => False
  | _ => True

/-- Nobody is admitted. -/
def Closed : RegistryEvent P → Prop
  | .enroll _ _ _ => False
  | _ => True

/-! ### What a step does to a node -/

variable {network : RegistryNetwork}

/-- The books of a node: its registry grows by a record at least for every broadcast that a checkpoint makes
due, and every broadcast was made due by a checkpoint or a link. -/
structure Accounts (network next : RegistryNetwork) (node : NodeId) : Prop where
  grows : AuthorizationRegistry.Grows P (fun _ => True) (network.peer node).registry (next.peer node).registry
  paid : (network.peer node).registry.records.size + next.cascades node ≤
    (next.peer node).registry.records.size + network.cascades node
  due : (next.peer node).due + next.broadcasts node + (network.noticed node + network.cascades node) =
    (network.peer node).due + network.broadcasts node + (next.noticed node + next.cascades node)

theorem accounts_same {next : RegistryNetwork} {node : NodeId} (peer : next.peer node = network.peer node)
    (broadcasts : next.broadcasts node = network.broadcasts node) (noticed : next.noticed node = network.noticed node)
    (cascades : next.cascades node = network.cascades node) : Accounts (P := P) network next node := by
  refine ⟨?_, ?_, ?_⟩
  · rw [peer]
    exact .refl
  · rw [peer, cascades]
  · rw [peer, broadcasts, noticed, cascades]

theorem count_same (counter : NodeId → Nat) (node : NodeId) (more : Bool) :
    count counter node more node = counter node + more.toNat := Function.update_self _ _ _

theorem count_other (counter : NodeId → Nat) {node other : NodeId} (away : other ≠ node) (more : Bool) :
    count counter node more other = counter other := Function.update_of_ne away _ _

theorem admitted_grows (enrollment : Enrollment) (call : EnrollmentCall P) (committed : Bool) :
    AuthorizationRegistry.Grows P (fun _ => True) enrollment.registry
      (admitted A enrollment call committed).registry := by
  have served := (Enrollment.serve_served A enrollment call).registry
  rw [admitted]
  split
  · exact .refl
  · rename_i answer
    rw [answer] at served
    exact served
  · rename_i answer
    rw [answer] at served
    split
    · exact served
    · exact .refl

/-- A step of one node: its books are looked at there. -/
theorem accounts_at {next : RegistryNetwork} {node : NodeId} (actor : NodeId) (peer : RegistryPeer)
    (peers : next.peer = Function.update network.peer actor peer)
    (others : ∀ node, node ≠ actor → next.broadcasts node = network.broadcasts node ∧
      next.noticed node = network.noticed node ∧ next.cascades node = network.cascades node)
    (grows : AuthorizationRegistry.Grows P (fun _ => True) (network.peer actor).registry peer.registry)
    (paid : (network.peer actor).registry.records.size + next.cascades actor ≤
      peer.registry.records.size + network.cascades actor)
    (due : peer.due + next.broadcasts actor + (network.noticed actor + network.cascades actor) =
      (network.peer actor).due + network.broadcasts actor + (next.noticed actor + next.cascades actor)) :
    Accounts (P := P) network next node := by
  by_cases here : node = actor
  · subst here
    have same : next.peer node = peer := by
      rw [peers, Function.update_self]
    refine ⟨?_, ?_, ?_⟩
    · rw [same]
      exact grows
    · rw [same]
      exact paid
    · rw [same]
      exact due
  · obtain ⟨broadcasts, noticed, cascades⟩ := others node here
    refine accounts_same ?_ broadcasts noticed cascades
    rw [peers, Function.update_of_ne here]

theorem step_accounts (network : RegistryNetwork) (event : RegistryEvent P) (node : NodeId) :
    Accounts (P := P) network (network.step A event) node := by
  cases event with
  | link actor connected => exact accounts_at actor _ rfl (fun _ _ => ⟨rfl, rfl, rfl⟩) .refl (le_refl _) rfl
  | notice actor =>
    refine accounts_at actor _ rfl (fun other away => ⟨rfl, count_other _ away _, rfl⟩) .refl (le_refl _) ?_
    simp only [step, withPeer, count_same]
    omega
  | broadcast actor limit =>
    rw [step]
    split
    · exact accounts_same rfl rfl rfl rfl
    · rename_i pending
      refine accounts_at actor _ rfl (fun other away => ⟨count_other _ away _, rfl, rfl⟩) .refl (le_refl _) ?_
      simp only [withPeer, count_same, Bool.toNat_true]
      omega
  | receive index committed =>
    rw [step]
    split
    · rename_i request found
      obtain ⟨_, grows, size, _⟩ := @merge_spec P (network.peer request.destination).enrollment request.records
        committed
      refine accounts_at request.destination _ rfl (fun other away => ⟨rfl, rfl, count_other _ away _⟩) grows
        ?_ ?_
      · simp only [count_same, RegistryPeer.registry]
        omega
      · simp only [withPeer, count_same]
        omega
    · exact accounts_same rfl rfl rfl rfl
  | merge index committed =>
    rw [step]
    split
    · rename_i source destination records found
      obtain ⟨_, grows, _⟩ := @merge_spec P (network.peer destination).enrollment records committed
      exact accounts_at destination _ rfl (fun _ _ => ⟨rfl, rfl, rfl⟩) grows
        (Nat.add_le_add_right grows.size_le _) rfl
    · exact accounts_same rfl rfl rfl rfl
    · exact accounts_same rfl rfl rfl rfl
  | loseRequest index => exact accounts_same rfl rfl rfl rfl
  | loseReply index => exact accounts_same rfl rfl rfl rfl
  | enroll actor call committed =>
    have grows := admitted_grows A (network.peer actor).enrollment call committed
    exact accounts_at actor _ rfl (fun _ _ => ⟨rfl, rfl, rfl⟩) grows (Nat.add_le_add_right grows.size_le _) rfl

/-! ### Runs -/

theorem run_accounts (network : RegistryNetwork) (events : List (RegistryEvent P)) (node : NodeId) :
    Accounts (P := P) network (network.run A events) node := by
  induction events generalizing network with
  | nil => exact accounts_same rfl rfl rfl rfl
  | cons event rest ih =>
    have head := step_accounts A network event node
    have tail := ih (network.step A event)
    have moved : network.run A (event :: rest) = (network.step A event).run A rest := rfl
    rw [moved]
    have paid := head.paid
    have due := head.due
    refine ⟨head.grows.trans tail.grows, ?_, ?_⟩
    · have later := tail.paid
      omega
    · have later := tail.due
      omega

end RegistryNetwork

end Lycoris.Daemon
