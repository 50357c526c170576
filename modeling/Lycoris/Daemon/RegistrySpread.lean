import Lycoris.Daemon.Checkpoints
import Lycoris.Lib.Lists

/-!
How far a registry checkpoint gets (`daemon/src/overlay.rs`). The cascade of broadcasts ends, since only what is
new to a node is passed on. Where no commit fails and nothing is lost, both ends of a link have the other's
records after an exchange.
-/

namespace Lycoris.Daemon
open Lib Overlay
open AuthorizationRegistry (Extends WellFormed Valid)

namespace RegistryNetwork

variable {P : Primitives} (A : AdmissionPrimitives) {network : RegistryNetwork}

/-! ### Where records come from -/

theorem withPeer_same (node : NodeId) (peer : RegistryPeer) : (network.withPeer node peer).peer node = peer :=
  Function.update_self _ _ _

theorem withPeer_other {node other : NodeId} (away : other ≠ node) (peer : RegistryPeer) :
    (network.withPeer node peer).peer other = network.peer other := Function.update_of_ne away _ _

/-- A request carries the registry of its sender. -/
theorem step_requests {event : RegistryEvent P} {request : CheckpointRequest}
    (member : request ∈ (network.step A event).requests) :
    request ∈ network.requests ∨ request.records = (network.peer request.source).registry.records.vals := by
  cases event with
  | link node connected => exact Or.inl member
  | notice node => exact Or.inl member
  | broadcast node limit =>
    rw [step] at member
    split at member
    · exact Or.inl member
    · rcases List.mem_append.mp member with before | sent
      · exact Or.inl before
      · obtain ⟨destination, _, rfl⟩ := List.mem_map.mp sent
        exact Or.inr rfl
  | receive index committed =>
    rw [step] at member
    split at member
    · exact Or.inl (List.mem_of_mem_eraseIdx member)
    · exact Or.inl member
  | merge index committed =>
    rw [step] at member
    split at member
    · exact Or.inl member
    · exact Or.inl member
    · exact Or.inl member
  | loseRequest index => exact Or.inl (List.mem_of_mem_eraseIdx member)
  | loseReply index => exact Or.inl member
  | enroll node call committed => exact Or.inl member

/-- A reply carries the registry of the node that answers, as it is after the merge. -/
theorem step_replies {event : RegistryEvent P} {reply : CheckpointReply}
    (member : reply ∈ (network.step A event).replies) :
    reply ∈ network.replies ∨ ∀ records, reply.response = .applied records →
      records = ((network.step A event).peer reply.source).registry.records.vals := by
  cases event with
  | link node connected => exact Or.inl member
  | notice node => exact Or.inl member
  | broadcast node limit =>
    rw [step] at member
    split at member
    · exact Or.inl member
    · exact Or.inl member
  | receive index committed =>
    rw [step] at member ⊢
    split at member
    · rename_i request found
      rcases List.mem_append.mp member with before | sent
      · exact Or.inl before
      · rw [List.mem_singleton] at sent
        subst sent
        refine Or.inr fun records applied => ?_
        have answer := (merge_spec (P := P)).2.2.2 records applied
        dsimp only
        rw [withPeer_same]
        exact answer
    · exact Or.inl member
  | merge index committed =>
    rw [step] at member
    split at member
    · exact Or.inl (List.mem_of_mem_eraseIdx member)
    · exact Or.inl (List.mem_of_mem_eraseIdx member)
    · exact Or.inl member
  | loseRequest index => exact Or.inl member
  | loseReply index => exact Or.inl (List.mem_of_mem_eraseIdx member)
  | enroll node call committed => exact Or.inl member

/-- What a message brings to a node. -/
structure Brought (network : RegistryNetwork) (node : NodeId) (r : AuthorizationRecord) : Prop where
  carried : (∃ request ∈ network.requests, request.destination = node ∧ r ∈ request.records) ∨
    ∃ reply ∈ network.replies, reply.destination = node ∧
      ∃ records, reply.response = .applied records ∧ r ∈ records

/-- Apart from an admission a node learns records only from a message to it. -/
theorem step_learns {event : RegistryEvent P} (closed : Closed event) {node : NodeId} {r : AuthorizationRecord}
    (member : r ∈ ((network.step A event).peer node).registry) :
    r ∈ (network.peer node).registry ∨ Brought network node r := by
  have at_actor : ∀ (actor : NodeId) (peer : RegistryPeer),
      r ∈ (Function.update network.peer actor peer node).registry →
      r ∈ (network.peer node).registry ∨ node = actor ∧ r ∈ peer.registry := by
    intro actor peer inside
    by_cases here : node = actor
    · subst here
      rw [Function.update_self] at inside
      exact Or.inr ⟨rfl, inside⟩
    · rw [Function.update_of_ne here] at inside
      exact Or.inl inside
  cases event with
  | link actor connected =>
    rcases at_actor actor _ member with before | ⟨rfl, inside⟩
    · exact Or.inl before
    · exact Or.inl inside
  | notice actor =>
    rcases at_actor actor _ member with before | ⟨rfl, inside⟩
    · exact Or.inl before
    · exact Or.inl inside
  | broadcast actor limit =>
    rw [step] at member
    split at member
    · exact Or.inl member
    · rcases at_actor actor _ member with before | ⟨rfl, inside⟩
      · exact Or.inl before
      · exact Or.inl inside
  | receive index committed =>
    rw [step] at member
    split at member
    · rename_i request found
      rcases at_actor request.destination _ member with before | ⟨rfl, inside⟩
      · exact Or.inl before
      · refine ((merge_spec (P := P)).1 r inside).imp_right fun carried => ?_
        exact ⟨Or.inl ⟨request, List.mem_of_getElem? found, rfl, carried⟩⟩
    · exact Or.inl member
  | merge index committed =>
    rw [step] at member
    split at member
    · rename_i source destination records found
      rcases at_actor destination _ member with before | ⟨rfl, inside⟩
      · exact Or.inl before
      · refine ((merge_spec (P := P)).1 r inside).imp_right fun carried => ?_
        exact ⟨Or.inr ⟨_, List.mem_of_getElem? found, rfl, records, rfl, carried⟩⟩
    · exact Or.inl member
    · exact Or.inl member
  | loseRequest index => exact Or.inl member
  | loseReply index => exact Or.inl member
  | enroll actor call committed => exact closed.elim

/-! ### The cascade ends -/

/-- All records of the nodes and of the messages under way. -/
structure Inside (known : AuthorizationRecord → Prop) (network : RegistryNetwork) : Prop where
  registries : ∀ node, ∀ r ∈ (network.peer node).registry, known r
  requests : ∀ request ∈ network.requests, ∀ r ∈ request.records, known r
  replies : ∀ reply ∈ network.replies, ∀ records, reply.response = .applied records → ∀ r ∈ records, known r

theorem Inside.step {known : AuthorizationRecord → Prop} {event : RegistryEvent P} (closed : Closed event)
    (inside : Inside known network) : Inside known (network.step A event) := by
  have registries : ∀ node, ∀ r ∈ ((network.step A event).peer node).registry, known r := by
    intro node r member
    rcases step_learns A closed member with before |
      ⟨⟨request, sent, _, carried⟩ | ⟨reply, sent, _, records, applied, carried⟩⟩
    · exact inside.registries node r before
    · exact inside.requests request sent r carried
    · exact inside.replies reply sent records applied r carried
  refine ⟨registries, ?_, ?_⟩
  · intro request member r carried
    rcases step_requests A member with before | whole
    · exact inside.requests request before r carried
    · rw [whole] at carried
      exact inside.registries _ r (KeyedMap.mem_vals.mp carried)
  · intro reply member records applied r carried
    rcases step_replies A member with before | whole
    · exact inside.replies reply before records applied r carried
    · rw [whole records applied] at carried
      exact registries _ r (KeyedMap.mem_vals.mp carried)

theorem Inside.run {known : AuthorizationRecord → Prop} {events : List (RegistryEvent P)}
    (closed : ∀ event ∈ events, Closed event) (inside : Inside known network) :
    Inside known (network.run A events) := by
  induction events generalizing network with
  | nil => exact inside
  | cons event rest ih =>
    exact ih (fun later member => closed later (List.mem_cons_of_mem _ member))
      (inside.step A (closed event List.mem_cons_self))

/-- Nothing was counted yet. -/
structure Uncounted (network : RegistryNetwork) : Prop where
  broadcasts : ∀ node, network.broadcasts node = 0
  noticed : ∀ node, network.noticed node = 0
  cascades : ∀ node, network.cascades node = 0

/-- Nobody passes on a checkpoint forever: apart from those for new links, a node makes at most as many broadcasts
as there are records it did not have. -/
theorem cascade_ends (network : RegistryNetwork) (events : List (RegistryEvent P))
    (known : Finset AuthorizationRecord) (inside : Inside (· ∈ known) network) (start : Uncounted network)
    (closed : ∀ event ∈ events, Closed event) (node : NodeId) :
    ((network.run A events).peer node).due + (network.run A events).broadcasts node +
        (network.peer node).registry.records.size ≤
      (network.peer node).due + (network.run A events).noticed node + known.card := by
  have books := run_accounts A network events node
  have part : ((network.run A events).peer node).registry.records.vals.toFinset ⊆ known := by
    intro r member
    exact (inside.run A closed).registries node r (KeyedMap.mem_vals.mp (List.mem_toFinset.mp member))
  have distinct : ((network.run A events).peer node).registry.records.vals.Nodup :=
    List.Nodup.of_map _ (KeyedMap.nodup_keys _)
  have fits := Finset.card_le_card part
  rw [List.toFinset_card_of_nodup distinct, KeyedMap.length_vals] at fits
  have paid := books.paid
  have due := books.due
  have zero := start.broadcasts node
  have links := start.noticed node
  have cascades := start.cascades node
  omega

/-! ### Both ends of a link -/

/-- The records are those of a well-formed part of the registry a node has now. -/
def FromOf (P : Primitives) (network : RegistryNetwork) (node : NodeId) (records : List AuthorizationRecord) : Prop :=
  ∃ part, WellFormed P part ∧ Extends part (network.peer node).registry ∧ records = part.records.vals

/-- Every registry is well formed, and every message is a checkpoint its sender made. -/
structure Sourced (P : Primitives) (network : RegistryNetwork) : Prop where
  wf : ∀ node, WellFormed P (network.peer node).registry
  requests : ∀ request ∈ network.requests, FromOf P network request.source request.records
  replies : ∀ reply ∈ network.replies, ∀ records, reply.response = .applied records →
    FromOf P network reply.source records

theorem FromOf.step {node : NodeId} {records : List AuthorizationRecord} (event : RegistryEvent P)
    (sourced : FromOf P network node records) : FromOf P (network.step A event) node records := by
  obtain ⟨part, wf, inside, same⟩ := sourced
  exact ⟨part, wf, inside.trans (step_accounts A network event node).grows.extends, same⟩

theorem fromOf_whole {node : NodeId} (wf : WellFormed P (network.peer node).registry) :
    FromOf P network node (network.peer node).registry.records.vals :=
  ⟨(network.peer node).registry, wf, .refl _, rfl⟩

theorem Sourced.step (sourced : Sourced P network) (event : RegistryEvent P) :
    Sourced P (network.step A event) := by
  have wf : ∀ node, WellFormed P ((network.step A event).peer node).registry :=
    fun node => (step_accounts A network event node).grows.wellFormed (sourced.wf node)
  refine ⟨wf, ?_, ?_⟩
  · intro request member
    rcases step_requests A member with before | whole
    · exact (sourced.requests request before).step A event
    · rw [whole]
      exact (fromOf_whole (sourced.wf request.source)).step A event
  · intro reply member records applied
    rcases step_replies A member with before | whole
    · exact (sourced.replies reply before records applied).step A event
    · rw [whole records applied]
      exact fromOf_whole (wf reply.source)

theorem Sourced.run (sourced : Sourced P network) (events : List (RegistryEvent P)) :
    Sourced P (network.run A events) := by
  induction events generalizing network with
  | nil => exact sourced
  | cons event rest ih => exact ih (sourced.step A event)

/-- Where the checkpoint of `a` for `b` is: on its way, answered, or back. `sent` and `had` are the records the two
had when it was sent. -/
inductive Exchange (a b : NodeId) (sent had : AuthorizationRegistry) (network : RegistryNetwork) : Prop
  | asked (request : CheckpointRequest) (member : request ∈ network.requests) (source : request.source = a)
      (destination : request.destination = b) (whole : request.records = sent.records.vals)
      (kept : ∀ r ∈ had, r ∈ (network.peer b).registry)
  | answered (arrived : ∀ r ∈ sent, r ∈ (network.peer b).registry) (reply : CheckpointReply)
      (member : reply ∈ network.replies) (destination : reply.destination = a) (records : List AuthorizationRecord)
      (applied : reply.response = .applied records) (carried : ∀ r ∈ had, r ∈ records)
  | done (arrived : ∀ r ∈ sent, r ∈ (network.peer b).registry) (back : ∀ r ∈ had, r ∈ (network.peer a).registry)

/-- Without a loss a request stays until it is served. -/
theorem request_served {event : RegistryEvent P} (kept : Keeps network event) {request : CheckpointRequest}
    (member : request ∈ network.requests) :
    request ∈ (network.step A event).requests ∨
      ∃ index, event = .receive index true ∧ network.requests[index]? = some request := by
  cases event with
  | link node connected => exact Or.inl member
  | notice node => exact Or.inl member
  | broadcast node limit =>
    rw [step]
    split
    · exact Or.inl member
    · exact Or.inl (List.mem_append_left _ member)
  | receive index committed =>
    cases (show committed = true from kept)
    rcases mem_eraseIdx_or member index with taken | left
    · exact Or.inr ⟨index, rfl, taken⟩
    · rw [step]
      split
      · exact Or.inl left
      · exact Or.inl member
  | merge index committed =>
    rw [step]
    split
    · exact Or.inl member
    · exact Or.inl member
    · exact Or.inl member
  | loseRequest index => exact kept.elim
  | loseReply index => exact Or.inl member
  | enroll node call committed => exact Or.inl member

theorem reply_served {event : RegistryEvent P} (kept : Keeps network event) {reply : CheckpointReply}
    (member : reply ∈ network.replies) :
    reply ∈ (network.step A event).replies ∨
      ∃ index, event = .merge index true ∧ network.replies[index]? = some reply := by
  cases event with
  | link node connected => exact Or.inl member
  | notice node => exact Or.inl member
  | broadcast node limit =>
    rw [step]
    split
    · exact Or.inl member
    · exact Or.inl member
  | receive index committed =>
    rw [step]
    split
    · exact Or.inl (List.mem_append_left _ member)
    · exact Or.inl member
  | merge index committed =>
    cases (show committed = true from kept)
    rcases mem_eraseIdx_or member index with taken | left
    · exact Or.inr ⟨index, rfl, taken⟩
    · rw [step]
      split
      · exact Or.inl left
      · exact Or.inl left
      · exact Or.inl member
  | loseRequest index => exact Or.inl member
  | loseReply index => exact kept.elim
  | enroll node call committed => exact Or.inl member

section Exchange

variable {h : AuthorizationRegistry} {a b : NodeId} {sent had : AuthorizationRegistry}

/-- A merge of a checkpoint takes it over as a whole, within the registry `h` of all. -/
theorem FromOf.merged {source : NodeId} (node : NodeId) {records : List AuthorizationRecord} (valid : Valid P h)
    (within : ∀ node, Extends (network.peer node).registry h) (sourced : FromOf P network source records) :
    (mergeRegistryCheckpoint P (network.peer node).enrollment records true).1.1 =
      .applied (mergeRegistryCheckpoint P (network.peer node).enrollment records true).2.registry.records.vals ∧
    ∀ r ∈ records, r ∈ (mergeRegistryCheckpoint P (network.peer node).enrollment records true).2.registry := by
  obtain ⟨part, wf, inside, rfl⟩ := sourced
  obtain ⟨answer, _, all⟩ := merge_part_spec valid wf (inside.trans (within source)) (within node)
  exact ⟨answer, fun r member => all r (KeyedMap.mem_vals.mp member)⟩

theorem Exchange.step (valid : Valid P h) (sourced : Sourced P network)
    (within : ∀ node, Extends (network.peer node).registry h) {event : RegistryEvent P} (kept : Keeps network event)
    (exchange : Exchange a b sent had network) : Exchange a b sent had (network.step A event) := by
  have grown : ∀ node, ∀ r ∈ (network.peer node).registry, r ∈ ((network.step A event).peer node).registry :=
    fun node => (step_accounts A network event node).grows.extends.records
  cases exchange with
  | asked request member source destination whole known =>
    rcases request_served A kept member with still | ⟨index, rfl, found⟩
    · exact .asked request still source destination whole fun r inside => grown b r (known r inside)
    · obtain ⟨answer, all⟩ := (sourced.requests request member).merged b valid within
      have larger := (@merge_spec P (network.peer b).enrollment request.records true).2.1.extends.records
      subst source destination
      simp only [step, found]
      refine .answered ?_ ⟨request.destination, request.source, _⟩
        (List.mem_append_right _ (List.mem_singleton_self _)) rfl _ answer ?_
      · intro r inside
        show r ∈ ((network.withPeer _ _).peer _).registry
        rw [withPeer_same]
        exact all r (whole ▸ KeyedMap.mem_vals.mpr inside)
      · exact fun r inside => KeyedMap.mem_vals.mpr (larger r (known r inside))
  | answered arrived reply member destination records applied carried =>
    have later : ∀ r ∈ sent, r ∈ ((network.step A event).peer b).registry :=
      fun r inside => grown b r (arrived r inside)
    rcases reply_served A kept member with still | ⟨index, rfl, found⟩
    · exact .answered later reply still destination records applied carried
    · obtain ⟨answer, all⟩ := (sourced.replies reply member records applied).merged a valid within
      obtain ⟨source, destination', response⟩ := reply
      subst destination applied
      refine .done later fun r inside => ?_
      simp only [step, found]
      show r ∈ ((network.withPeer _ _).peer _).registry
      rw [withPeer_same]
      exact all r (carried r inside)
  | done arrived back =>
    exact .done (fun r member => grown b r (arrived r member)) fun r member => grown a r (back r member)

theorem Exchange.run (events : List (RegistryEvent P)) (valid : Valid P h) (sourced : Sourced P network)
    (within : ∀ node, Extends ((network.run A events).peer node).registry h)
    (kept : Steps (RegistryNetwork.step A) Keeps network events) (exchange : Exchange a b sent had network) :
    Exchange a b sent had (network.run A events) := by
  induction events generalizing network with
  | nil => exact exchange
  | cons event rest ih =>
    have grown : ∀ node, Extends (network.peer node).registry h := fun node =>
      (run_accounts A network (event :: rest) node).grows.extends.trans (within node)
    exact ih (sourced.step A event) within kept.2 (exchange.step A valid sourced grown kept.1)

end Exchange

/-- Nothing of the gossip is under way. -/
structure Landed (network : RegistryNetwork) : Prop where
  requests : network.requests = []
  replies : network.replies = []

theorem Exchange.landed {a b : NodeId} {sent had : AuthorizationRegistry} (exchange : Exchange a b sent had network)
    (landed : Landed network) :
    (∀ r ∈ sent, r ∈ (network.peer b).registry) ∧ ∀ r ∈ had, r ∈ (network.peer a).registry := by
  cases exchange with
  | asked request member =>
    rw [landed.requests] at member
    cases member
  | answered _ reply member =>
    rw [landed.replies] at member
    cases member
  | done arrived back => exact ⟨arrived, back⟩

/-- A broadcast makes both ends of each link have what the other had, whatever else happens, once everything has
landed: what was lost before does not matter. All registries are to be part of one that is valid. -/
theorem broadcast_exchanges (network : RegistryNetwork) (before after : List (RegistryEvent P)) (a b : NodeId)
    (limit : Nat) (h : AuthorizationRegistry) (sourced : Sourced P network) (valid : Valid P h)
    (due : ((network.run A before).peer a).due ≠ 0) (linked : b ∈ ((network.run A before).peer a).connected)
    (kept : Steps (RegistryNetwork.step A) Keeps (network.run A before) (.broadcast a limit :: after))
    (within : ∀ node, Extends (((network.run A before).run A (.broadcast a limit :: after)).peer node).registry h)
    (landed : Landed ((network.run A before).run A (.broadcast a limit :: after))) :
    (∀ r ∈ ((network.run A before).peer a).registry,
      r ∈ (((network.run A before).run A (.broadcast a limit :: after)).peer b).registry) ∧
    ∀ r ∈ ((network.run A before).peer b).registry,
      r ∈ (((network.run A before).run A (.broadcast a limit :: after)).peer a).registry := by
  have made := sourced.run A before
  generalize network.run A before = start at *
  have sends : Exchange a b (start.peer a).registry (start.peer b).registry 
      (start.step A (.broadcast a limit : RegistryEvent P)) := by
    have grown := (step_accounts A start (.broadcast a limit : RegistryEvent P) b).grows.extends.records
    refine .asked ⟨a, b, (start.peer a).registry.records.vals⟩ ?_ rfl rfl rfl grown
    have all : (start.peer a).connected.take limit = (start.peer a).connected := List.take_of_length_le kept.1
    rw [step, if_neg due, all]
    exact List.mem_append_right _ (List.mem_map.mpr ⟨b, linked, rfl⟩)
  exact (sends.run A after valid (made.step A _) within kept.2).landed landed

/-! ### A line of three nodes -/

section Line
open Transparent

def head : NodeId := BitVec.ofNat 256 1

def middle : NodeId := BitVec.ofNat 256 2

def last : NodeId := BitVec.ofNat 256 3

def base : AuthorizationRegistry := ((AuthorizationRegistry.new cluster).merge primitives [founding]).2

def grown : AuthorizationRegistry := (base.merge primitives [admission]).2

/-- The head knows of a second member; the rest of the line does not. -/
def line : RegistryNetwork where
  peer node :=
    if node = head then ⟨.new grown none, [middle], [], 1⟩
    else if node = middle then ⟨.new base none, [head, last], [], 0⟩
    else ⟨.new base none, [middle], [], 0⟩
  requests := []
  replies := []
  broadcasts _ := 0
  noticed _ := 0
  cascades _ := 0

def relay : List (RegistryEvent primitives) :=
  [.broadcast head 1, .receive 0 true, .merge 0 true, .broadcast middle 2, .receive 0 true, .receive 0 true,
    .merge 0 true, .merge 0 true, .broadcast last 1, .receive 0 true, .merge 0 true]

theorem base_wf : WellFormed primitives base :=
  (AuthorizationRegistry.merge_grows_any [founding]).wellFormed (AuthorizationRegistry.wellFormed_new cluster)

theorem ahead_of_base : AuthorizationRegistry.Grows primitives (fun _ => True) base grown :=
  AuthorizationRegistry.merge_grows_any [admission]

theorem grown_wf : WellFormed primitives grown := ahead_of_base.wellFormed base_wf

theorem grown_valid : Valid primitives grown :=
  ahead_of_base.valid ((AuthorizationRegistry.merge_grows_any [founding]).valid
    fun r none => absurd none (KeyedMap.not_mem_empty r))

theorem line_registry (node : NodeId) : (line.peer node).registry = if node = head then grown else base := by
  by_cases first : node = head
  · simp [line, first, RegistryPeer.registry, Enrollment.new]
  · by_cases second : node = middle
    · simp [line, second, RegistryPeer.registry, Enrollment.new, show middle ≠ head by decide]
    · simp [line, first, second, RegistryPeer.registry, Enrollment.new]

theorem line_within (node : NodeId) : Extends (line.peer node).registry grown := by
  rw [line_registry]
  split
  · exact .refl grown
  · exact ahead_of_base.extends

theorem line_inside : Inside (· ∈ grown.records.vals.toFinset) line where
  registries node r member :=
    List.mem_toFinset.mpr (KeyedMap.mem_vals.mpr ((line_within node).records r member))
  requests := by
    intro request none
    cases none
  replies := by
    intro reply none
    cases none

theorem cascade_ends_on_line : (line.run admissionPrimitives relay).broadcasts last ≤ 1 := by
  have bound := cascade_ends admissionPrimitives line relay grown.records.vals.toFinset line_inside
    ⟨fun _ => rfl, fun _ => rfl, fun _ => rfl⟩ (by simp [relay, Closed]) last
  have sizes : (line.peer last).registry.records.size = 1 ∧ grown.records.vals.length = 2 ∧
      (line.run admissionPrimitives relay).noticed last = 0 ∧ (line.peer last).due = 0 := by decide +kernel
  have few := grown.records.vals.toFinset_card_le
  omega

theorem line_sourced : Sourced primitives line where
  wf node := by
    rw [line_registry]
    split
    · exact grown_wf
    · exact base_wf
  requests := by
    intro request none
    cases none
  replies := by
    intro reply none
    cases none

/-- What a node has in a run of the line is part of what the head had. -/
theorem line_run_within {events : List (RegistryEvent primitives)} (closed : ∀ event ∈ events, Closed event)
    (node : NodeId) : Extends ((line.run admissionPrimitives events).peer node).registry grown where
  cluster := by
    have same := (run_accounts admissionPrimitives line events node).grows.extends.cluster
    exact (line_within node).cluster.trans same.symm
  records r member := by
    have known := (line_inside.run admissionPrimitives closed).registries node r member
    exact KeyedMap.mem_vals.mp (List.mem_toFinset.mp known)

def answers : List (RegistryEvent primitives) := [.receive 0 true, .receive 0 true, .merge 0 true, .merge 0 true]

/-- The middle notices its links, and learns from the head's answer. -/
theorem middle_exchanges :
    let start := line.run admissionPrimitives [(.notice middle : RegistryEvent primitives)]
    let final := start.run admissionPrimitives (.broadcast middle 2 :: answers)
    (∀ r ∈ (start.peer middle).registry, r ∈ (final.peer head).registry) ∧
      ∀ r ∈ (start.peer head).registry, r ∈ (final.peer middle).registry := by
  refine broadcast_exchanges admissionPrimitives line [.notice middle] answers middle head 2 grown line_sourced
    grown_valid (by decide +kernel) (by decide +kernel) ⟨?_, rfl, rfl, rfl, rfl, trivial⟩ ?_ ?_
  · show _ ≤ 2
    decide +kernel
  · intro node
    exact @line_run_within (.notice middle :: .broadcast middle 2 :: answers) (by simp [answers, Closed]) node
  · exact ⟨List.isEmpty_iff.mp (by decide +kernel), List.isEmpty_iff.mp (by decide +kernel)⟩

end Line

end RegistryNetwork

end Lycoris.Daemon
