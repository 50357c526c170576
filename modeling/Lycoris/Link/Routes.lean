import Lycoris.Link.Forwards
import Lycoris.Link.Mesh
import Lycoris.Overlay.NextHop

/-!
Routes in a mesh whose link state was delivered. A record reaches the neighbours of its node and no one
else, so every node finds its way exactly as far as its neighbours' records tell.
-/

namespace Lycoris.Link
open Lib Overlay

variable {ι : Type} {P : Primitives}

namespace Mesh

/-! ### Routes -/

section Routes

variable {E : LinkEncoding} {identities : ι → NodeIdentity P}

/-- Node `i` has a connection to node `j`. -/
def Edge (identities : ι → NodeIdentity P) (mesh : Mesh ι P) (i j : ι) : Prop :=
  (identities j).nodeId ∈ (mesh.actors i).state.edgeSet

instance (identities : ι → NodeIdentity P) (mesh : Mesh ι P) (i j : ι) :
    Decidable (mesh.Edge identities i j) :=
  inferInstanceAs (Decidable (_ ∈ (mesh.actors i).state.edgeSet))

/-- The records of a node say what its edges are, wherever the latest of them is held. -/
theorem mem_edgesOf {mesh : Mesh ι P} (nodes : Function.Injective fun j => (identities j).nodeId)
    (proper : Proper E identities mesh) {i k d : ι} {record : LinkStateRecord}
    (latest : (board E identities mesh).holds k k = some record)
    (held : (board E identities mesh).holds i k = some record) (edge : mesh.Edge identities k d)
    (other : k ≠ d) :
    (identities d).nodeId ∈ (mesh.actors i).router.links.edgesOf (identities k).nodeId := by
  have found : (mesh.actors i).router.links.records[(identities k).nodeId]? = some record := held
  rw [LinkStateDb.edgesOf, found]
  exact ((proper.fits k).own latest).2.mpr ⟨edge, fun same => other (nodes same).symm⟩

theorem reaches_of_near {mesh : Mesh ι P} (nodes : Function.Injective fun j => (identities j).nodeId)
    (proper : Proper E identities mesh) (kept : (board E identities mesh).Kept version)
    (delivered : ∀ packet ∈ mesh.flight, ¬ isLinkState packet.envelope)
    (undirected : ∀ i j, mesh.Edge identities i j → mesh.Edge identities j i) {i d : ι} (away : i ≠ d)
    (near : mesh.Edge identities i d ∨ ∃ k, mesh.Edge identities i k ∧ mesh.Edge identities k d) :
    Reaches (mesh.actors i).router.links.edgesOf (identities i).nodeId (identities d).nodeId := by
  have nothing : ∀ i j record, ¬ (board E identities mesh).underway i j record := by
    rintro i j record ⟨packet, member, _, _, linkState, _⟩
    exact delivered packet member linkState
  have direct : ∀ {j}, i ≠ j → mesh.Edge identities i j →
      (identities j).nodeId ∈ (mesh.actors i).router.links.edgesOf (identities i).nodeId := by
    intro j other edge
    obtain ⟨record, latest, _⟩ := kept.told edge
    exact mem_edgesOf nodes proper latest latest edge other
  rcases near with edge | ⟨k, first, second⟩
  · exact ⟨1, .edge (direct away edge)⟩
  · by_cases self : i = k
    · subst self
      exact ⟨1, .edge (direct away second)⟩
    · by_cases arrived : k = d
      · subst arrived
        exact ⟨1, .edge (direct away first)⟩
      · -- the neighbour lists `i` as well, so its latest record has arrived
        obtain ⟨record, latest, held⟩ := kept.settled nothing (undirected i k first)
        exact ⟨2, .cons (direct self first) (.edge (mem_edgesOf nodes proper latest held second arrived))⟩

end Routes

/-! ### Runs -/

section Start

variable {E : LinkEncoding} (identities : ι → NodeIdentity P)

/-- The nodes before anything has happened. -/
def start (registries : ι → AuthorizationRegistry) (bootIds : ι → Bytes) (nextSequences : ι → UInt64) :
    Mesh ι P :=
  ⟨fun i => .new (identities i) (registries i) (bootIds i) (nextSequences i), []⟩

variable {identities}

theorem proper_start {registries : ι → AuthorizationRegistry} (bootIds : ι → Bytes)
    (nextSequences : ι → UInt64) (binds : ∀ i, Binds identities (registries i)) :
    Proper E identities (start identities registries bootIds nextSequences) := by
  refine ⟨fun i => ⟨rfl, binds i, ?_, ?_⟩, fun _ none => absurd none List.not_mem_nil⟩
  · intro info j member
    cases member
  · intro record found
    have none : LinkStateDb.empty.records[(identities i).nodeId]? = none := Std.ExtTreeMap.getElem?_empty
    cases none.symm.trans found

theorem kept_start {registries : ι → AuthorizationRegistry} (bootIds : ι → Bytes)
    (nextSequences : ι → UInt64) :
    (board E identities (start identities registries bootIds nextSequences)).Kept version := by
  refine Board.kept_of_empty ?_ ?_ ?_
  · intro i j edge
    obtain ⟨info, member, _⟩ := mem_edgeSet.mp edge
    cases member
  · intro i j
    exact Std.ExtTreeMap.getElem?_empty
  · rintro i j record ⟨packet, member, _⟩
    cases member

end Start

section Runs
open LinkActor

variable [DecidableEq ι] (E : LinkEncoding) (identities : ι → NodeIdentity P)

/-- Every step is orderly, and no node runs out of room for edges or of numbers. -/
def Runs : Mesh ι P → List (Moment × MeshEvent ι P) → Prop
  | mesh, [] => ∀ i, Room (mesh.actors i)
  | mesh, (moment, event) :: rest =>
    (∀ i, Room (mesh.actors i)) ∧ mesh.Orderly E identities event ∧ Runs (mesh.step E moment event) rest

variable {E identities}

theorem Runs.room {mesh : Mesh ι P} {events : List (Moment × MeshEvent ι P)}
    (runs : Runs E identities mesh events) (i : ι) : Room (mesh.actors i) := by
  cases events with
  | nil => exact runs i
  | cons _ _ => exact runs.1 i

theorem step_simulates {mesh : Mesh ι P} {moment : Moment} {event : MeshEvent ι P}
    (nodes : Function.Injective fun j => (identities j).nodeId)
    (peers : Function.Injective fun j => (identities j).peerId) (sound : ∀ i, Sound E (identities i))
    (proper : Proper E identities mesh) (kept : (board E identities mesh).Kept version)
    (orderly : mesh.Orderly E identities event) (room : ∀ i, Room (mesh.actors i))
    (left : ∀ i, Room ((mesh.step E moment event).actors i)) :
    Board.Step version (board E identities mesh) (board E identities (mesh.step E moment event)) ∧
      Proper E identities (mesh.step E moment event) := by
  cases event with
  | act i event => exact act_simulates nodes (sound i) proper orderly (room i) (left i)
  | deliver position i requestId channel =>
    exact deliver_simulates nodes peers (sound i) proper kept orderly (room i) (left i)

theorem Runs.kept {mesh : Mesh ι P} {events : List (Moment × MeshEvent ι P)}
    (nodes : Function.Injective fun j => (identities j).nodeId)
    (peers : Function.Injective fun j => (identities j).peerId) (sound : ∀ i, Sound E (identities i))
    (runs : Runs E identities mesh events) (proper : Proper E identities mesh)
    (kept : (board E identities mesh).Kept version) :
    Proper E identities (mesh.run E events) ∧ (board E identities (mesh.run E events)).Kept version := by
  induction events generalizing mesh with
  | nil => exact ⟨proper, kept⟩
  | cons first rest ih =>
    obtain ⟨moment, event⟩ := first
    obtain ⟨room, orderly, later⟩ := runs
    obtain ⟨simulates, proper'⟩ :=
      @step_simulates _ _ _ _ _ _ moment event nodes peers sound proper kept orderly room later.room
    exact ih later proper' (kept.step simulates)

/-- After an orderly run in which all link state was delivered, every node has a next hop to every other
one, where any two nodes are at most two edges apart. -/
theorem next_hops_known (nodes : Function.Injective fun i => (identities i).nodeId)
    (peers : Function.Injective fun i => (identities i).peerId) (sound : ∀ i, Sound E (identities i))
    {registries : ι → AuthorizationRegistry} (binds : ∀ i, Binds identities (registries i))
    {bootIds : ι → Bytes} {nextSequences : ι → UInt64} {events : List (Moment × MeshEvent ι P)}
    (runs : Runs E identities (start identities registries bootIds nextSequences) events) :
    let mesh := (start identities registries bootIds nextSequences).run E events
    (∀ packet ∈ mesh.flight, ¬ isLinkState packet.envelope) →
    (∀ i j, mesh.Edge identities i j → mesh.Edge identities j i) →
    (∀ i d, i ≠ d → mesh.Edge identities i d ∨
      ∃ k, mesh.Edge identities i k ∧ mesh.Edge identities k d) →
    ∀ i d, i ≠ d → ((mesh.actors i).router.links.nextHop (identities i).nodeId (identities d).nodeId).isSome := by
  intro mesh delivered undirected near i d away
  obtain ⟨proper, kept⟩ := runs.kept nodes peers sound
    (proper_start bootIds nextSequences binds) (kept_start bootIds nextSequences)
  rw [LinkStateDb.nextHop_isSome fun same => away (nodes same)]
  exact reaches_of_near nodes proper kept delivered undirected away (near i d away)

end Runs

/-! ### Four nodes -/

section Checked
open LinkActor

variable (E : LinkEncoding) (identities : ι → NodeIdentity P)

/-- A registry whose active records carry the nodes' own peer ids knows them by no others. -/
theorem binds_of_active {identities : ι → NodeIdentity P} {registry : AuthorizationRegistry}
    (faithful : Function.Injective P.peerIdToBytes)
    (own : ∀ record ∈ registry.records.vals, ∀ active ∈ registry.activeRecordForNode record.nodeId,
      ∀ i, active.nodeId = (identities i).nodeId → active.peerId = (identities i).peerIdBytes) :
    Binds identities registry := by
  intro i peerId found
  have listed : (identities i).nodeId ∈ registry.nodesForPeer P peerId := by
    unfold AuthorizationRegistry.nodeForPeer at found
    split at found
    · rename_i nodeId only
      obtain rfl := Option.some.inj found
      exact List.mem_dedup.mp (only ▸ List.mem_singleton_self _)
    · cases found
  obtain ⟨record, member, named⟩ := List.mem_filterMap.mp listed
  split at named
  · rename_i active status
    split at named
    · rename_i same
      have current : registry.activeRecordForNode record.nodeId = some active := by
        rw [AuthorizationRegistry.activeRecordForNode, status]
      exact faithful (same.symm.trans (own record member active current i (Option.some.inj named)))
    · cases named
  · cases named

/-- Events that hand over neither envelopes nor registries, and arrivals at nodes that know the sender. -/
def Plainly (mesh : Mesh ι P) : MeshEvent ι P → Prop
  | .act _ event => event.envelope?.isNone ∧ event.registry?.isNone
  | .deliver position i _ _ => ∀ packet ∈ mesh.flight[position]?,
    Knows (mesh.actors i) (identities packet.sender) packet.envelope.header.clusterId

variable {E identities} in
theorem Plainly.orderly {mesh : Mesh ι P} {event : MeshEvent ι P}
    (plainly : mesh.Plainly identities event) : mesh.Orderly E identities event := by
  cases event with
  | act i event =>
    refine ⟨fun envelope handed => ?_, fun registry handed => ?_⟩
    · cases (Option.isNone_iff_eq_none.mp plainly.1).symm.trans handed
    · cases (Option.isNone_iff_eq_none.mp plainly.2).symm.trans handed
  | deliver position i requestId channel =>
    intro packet found _ _ _ _
    exact plainly packet found

variable [DecidableEq ι]

/-- A run of such events in which every node has room. -/
def Checked : Mesh ι P → List (Moment × MeshEvent ι P) → Prop
  | mesh, [] => ∀ i, Room (mesh.actors i)
  | mesh, (moment, event) :: rest =>
    (∀ i, Room (mesh.actors i)) ∧ mesh.Plainly identities event ∧ Checked (mesh.step E moment event) rest

instance (actor : LinkActor P) : Decidable (Room actor) :=
  decidable_of_iff (_ ∧ _ ∧ _) ⟨fun h => ⟨h.1, h.2.1, h.2.2⟩, fun h => ⟨h.edges, h.requests, h.sequences⟩⟩

instance (actor : LinkActor P) (identity : NodeIdentity P) (clusterId : ClusterId) :
    Decidable (Knows actor identity clusterId) :=
  inferInstanceAs (Decidable (_ ∧ _ ∧ _))

instance (mesh : Mesh ι P) (event : MeshEvent ι P) : Decidable (mesh.Plainly identities event) :=
  match event with
  | .act _ event => inferInstanceAs (Decidable (event.envelope?.isNone ∧ event.registry?.isNone))
  | .deliver position i _ _ => inferInstanceAs (Decidable (∀ packet ∈ mesh.flight[position]?,
    Knows (mesh.actors i) (identities packet.sender) packet.envelope.header.clusterId))

instance decidableChecked [Fintype ι] :
    (mesh : Mesh ι P) → (events : List (Moment × MeshEvent ι P)) →
      Decidable (Checked E identities mesh events)
  | mesh, [] => inferInstanceAs (Decidable (∀ i, Room (mesh.actors i)))
  | mesh, (moment, event) :: rest =>
    have := decidableChecked (mesh.step E moment event) rest
    inferInstanceAs (Decidable ((∀ i, Room (mesh.actors i)) ∧ mesh.Plainly identities event ∧
      Checked E identities (mesh.step E moment event) rest))

variable {E identities}

theorem Checked.runs {mesh : Mesh ι P} {events : List (Moment × MeshEvent ι P)}
    (checked : Checked E identities mesh events) : Runs E identities mesh events := by
  induction events generalizing mesh with
  | nil => exact checked
  | cons first rest ih => exact ⟨checked.1, checked.2.1.orderly, ih checked.2.2⟩

end Checked

section Quartet
open Transparent

def fourth : NodeIdentity primitives := Transparent.identity 4 4

def fourthAdmission : AuthorizationRecord :=
  signed ((AuthorizationBody.active cluster fourth.publicIdentity 0 .admission).setAuthorizer
    founding LinkActor.thirdAdmission) founder

def quartet : AuthorizationRegistry :=
  (AuthorizationRegistry.new cluster).replay primitives
    [.merge [founding, admission, LinkActor.thirdAdmission, fourthAdmission]]

def quartetIdentities : Fin 4 → NodeIdentity primitives := ![founder, member, LinkActor.third, fourth]

def quartetStart : Mesh (Fin 4) primitives :=
  start quartetIdentities (fun _ => quartet) (fun _ => []) (fun _ => 0)

/-- The two ends of one connection, each with its own identifier for it. -/
def connects (i j : Fin 4) (outgoing incoming : ConnectionId) : List (Moment × MeshEvent (Fin 4) primitives) :=
  [(LinkActor.trioMoment, .act i (.swarm (.connectionEstablished (quartetIdentities j).peerId outgoing (.dialer [])))),
    (LinkActor.trioMoment, .act j (.swarm (.connectionEstablished (quartetIdentities i).peerId incoming (.dialer []))))]

/-- The requests in flight arrive in order at these nodes. -/
def arrivals (receivers : List (Fin 4)) : List (Moment × MeshEvent (Fin 4) primitives) :=
  receivers.map fun i => (LinkActor.trioMoment, .deliver 0 i 0 0)

/-- The founder in the middle. -/
def starEvents : List (Moment × MeshEvent (Fin 4) primitives) :=
  connects 0 1 1 1 ++ connects 0 2 2 1 ++ connects 0 3 3 1 ++ arrivals [1, 0, 1, 2, 0, 1, 2, 3, 0]

/-- Each node connected to the next one. -/
def lineEvents : List (Moment × MeshEvent (Fin 4) primitives) :=
  connects 0 1 1 1 ++ connects 1 2 2 1 ++ connects 2 3 2 1 ++ arrivals [1, 0, 0, 2, 1, 1, 3, 2]

theorem star_next_hops_known :
    let mesh := quartetStart.run linkEncoding starEvents
    ∀ i d : Fin 4, i ≠ d → ((mesh.actors i).router.links.nextHop (quartetIdentities i).nodeId
      (quartetIdentities d).nodeId).isSome := by
  have sound : ∀ i, Sound linkEncoding (quartetIdentities i)
    | 0 => sound_identity 1 1
    | 1 => sound_identity 2 2
    | 2 => sound_identity 3 3
    | 3 => sound_identity 4 4
  have binds : Binds quartetIdentities quartet :=
    binds_of_active (fun _ _ same => same) (by decide +kernel)
  have evaluated : Checked linkEncoding quartetIdentities quartetStart starEvents ∧
      (quartetStart.run linkEncoding starEvents).flight = [] ∧
      ∀ i j, (quartetStart.run linkEncoding starEvents).Edge quartetIdentities i j ↔
        i ≠ j ∧ (i = 0 ∨ j = 0) := by
    decide +kernel
  obtain ⟨checked, arrived, edges⟩ := evaluated
  refine next_hops_known (by decide +kernel) (by decide +kernel) sound (fun _ => binds) checked.runs
    ?_ ?_ ?_
  · intro packet member
    have none : packet ∈ (quartetStart.run linkEncoding starEvents).flight := member
    rw [arrived] at none
    cases none
  · intro i j edge
    obtain ⟨other, middle⟩ := (edges i j).mp edge
    exact (edges j i).mpr ⟨other.symm, middle.symm⟩
  · intro i d away
    by_cases middle : i = 0 ∨ d = 0
    · exact .inl ((edges i d).mpr ⟨away, middle⟩)
    · obtain ⟨left, right⟩ := not_or.mp middle
      exact .inr ⟨0, (edges i 0).mpr ⟨left, .inr rfl⟩, (edges 0 d).mpr ⟨Ne.symm right, .inl rfl⟩⟩

/-- The ends of a line of four: all nodes are authorized, every connection is up at both ends and every
request has arrived, but a record goes no further than to a neighbour. -/
theorem line_ends_unknown :
    let mesh := quartetStart.run linkEncoding lineEvents
    mesh.flight = [] ∧
    (∀ i j, mesh.Edge quartetIdentities i j ↔ i.val + 1 = j.val ∨ j.val + 1 = i.val) ∧
    (mesh.actors 0).router.links.nextHop (quartetIdentities 0).nodeId (quartetIdentities 3).nodeId = none := by
  decide +kernel

end Quartet

end Mesh

end Lycoris.Link
