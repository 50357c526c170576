import Lycoris.Daemon.RegistrySpread
import Lycoris.Lib.Flood

/-!
The cascade of one registry checkpoint (`daemon/src/overlay.rs`). A node that learned something from a request
broadcasts in turn, so that a registry that is ahead of all the others reaches every node over the links. What a
node learns from an answer goes no further, which is why nobody else may broadcast meanwhile.
-/

namespace Lycoris.Daemon
open Lib Overlay
open AuthorizationRegistry (Extends WellFormed Valid)

namespace RegistryNetwork

variable {P : Primitives} (A : AdmissionPrimitives) {network : RegistryNetwork}

/-! ### Over all links -/

/-- A step of the cascade alone. -/
def Relays : RegistryEvent P → Prop
  | .broadcast _ _ => True
  | .receive _ _ => True
  | .merge _ _ => True
  | _ => False

/-- The registry `h` is ahead of all others, and no other checkpoint is under way. -/
structure Ahead (h : AuthorizationRegistry) (links : NodeId → List NodeId) (network : RegistryNetwork) : Prop where
  links : ∀ node, (network.peer node).connected = links node
  within : ∀ node, Extends (network.peer node).registry h
  requests : ∀ request ∈ network.requests, request.records = h.records.vals ∧
    (network.peer request.source).registry = h
  replies : ∀ reply ∈ network.replies, reply.response = .applied h.records.vals ∧
    (network.peer reply.destination).registry = h

/-- The registry `h` as an item that spreads. -/
def flood (h : AuthorizationRegistry) (network : RegistryNetwork) (passed : List (NodeId × List NodeId)) :
    Flood NodeId where
  taken node := (network.peer node).registry = h
  waiting node := (network.peer node).due
  flying := network.requests.map CheckpointRequest.destination
  passed := passed

theorem eq_of_both {g h : AuthorizationRegistry} (within : Extends g h) (all : ∀ r ∈ h, r ∈ g) : g = h :=
  AuthorizationRegistry.Toward.finished
    ⟨within, fun _ none => absurd none List.not_mem_nil, fun r member => Or.inl (all r member)⟩

/-- Whoever merges the registry that is ahead has it afterwards, and passes it on where it did not have it. -/
theorem merge_ahead {h : AuthorizationRegistry} (valid : Valid P h) (wf : WellFormed P h) {current : Enrollment}
    (within : Extends current.registry h) :
    (mergeRegistryCheckpoint P current h.records.vals true).1.1 = .applied h.records.vals ∧
    (mergeRegistryCheckpoint P current h.records.vals true).2.registry = h ∧
    ((mergeRegistryCheckpoint P current h.records.vals true).1.2 = true ↔ current.registry ≠ h) := by
  obtain ⟨answer, inside, all⟩ := merge_part_spec valid wf (.refl h) within
  have same := eq_of_both inside all
  refine ⟨answer.trans (by rw [same]), same, ?_⟩
  have counted := (@merge_spec P current h.records.vals true).2.2.1
  rw [same] at counted
  constructor
  · intro learned equal
    rw [learned, equal, Bool.toNat_true] at counted
    omega
  · intro behind
    by_contra still
    exact behind ((merge_unchanged (Bool.eq_false_iff.mpr still)).symm.trans same)

/-- What a step of the cascade does to the item that spreads. -/
structure Relayed (h : AuthorizationRegistry) (links : NodeId → List NodeId) (network next : RegistryNetwork)
    (passed more : List (NodeId × List NodeId)) : Prop where
  ahead : Ahead h links next
  clean : Flood.Clean (flood h network passed) (flood h next more)
  targets : ∀ pass ∈ more, pass ∈ passed ∨ pass.2 = links pass.1
  counted : ∀ node, next.broadcasts node + (flood h network passed).passes node =
    network.broadcasts node + (flood h next more).passes node

section Ahead

variable {h : AuthorizationRegistry} {links : NodeId → List NodeId} {passed : List (NodeId × List NodeId)}

theorem Ahead.idle (ahead : Ahead h links network) : Relayed h links network network passed passed where
  ahead := ahead
  clean := .idle (fun _ => Iff.rfl) (fun _ => rfl) (.refl _) rfl
  targets := fun _ => Or.inl
  counted := fun _ => rfl

/-- A peer takes the place of one with the same links, and the same registry where that was ahead. -/
theorem Ahead.withPeer (ahead : Ahead h links network) {next : RegistryNetwork} {node : NodeId} {peer : RegistryPeer}
    (peers : next.peer = Function.update network.peer node peer)
    (connected : peer.connected = (network.peer node).connected) (within : Extends peer.registry h)
    (requests : ∀ request ∈ next.requests, request.records = h.records.vals ∧ (next.peer request.source).registry = h)
    (replies : ∀ reply ∈ next.replies, reply.response = .applied h.records.vals ∧
      (next.peer reply.destination).registry = h) : Ahead h links next := by
  refine ⟨fun other => ?_, fun other => ?_, requests, replies⟩
  · by_cases here : other = node
    · rw [peers, here, Function.update_self, connected]
      exact ahead.links node
    · rw [peers, Function.update_of_ne here]
      exact ahead.links other
  · by_cases here : other = node
    · rw [peers, here, Function.update_self]
      exact within
    · rw [peers, Function.update_of_ne here]
      exact ahead.within other

/-- Who has the registry after one node took another state. -/
theorem has_after {next : RegistryNetwork} {node : NodeId} {peer : RegistryPeer}
    (peers : next.peer = Function.update network.peer node peer) (has : peer.registry = h) (other : NodeId) :
    (next.peer other).registry = h ↔ (network.peer other).registry = h ∨ other = node := by
  by_cases here : other = node
  · rw [peers, here, Function.update_self]
    exact ⟨fun _ => Or.inr rfl, fun _ => has⟩
  · rw [peers, Function.update_of_ne here]
    exact ⟨Or.inl, fun either => either.resolve_right here⟩

theorem due_after {next : RegistryNetwork} {node : NodeId} {peer : RegistryPeer}
    (peers : next.peer = Function.update network.peer node peer) (other : NodeId) :
    (next.peer other).due = if other = node then peer.due else (network.peer other).due := by
  rw [peers, Function.update_apply]
  split <;> rfl

theorem Ahead.broadcast (ahead : Ahead h links network) {node : NodeId} {limit : Nat}
    (has : (network.peer node).registry = h) (due : (network.peer node).due ≠ 0)
    (whole : (network.peer node).connected.length ≤ limit) :
    Relayed h links network (network.step A (.broadcast node limit : RegistryEvent P)) passed
      (passed ++ [(node, links node)]) := by
  have all : (network.peer node).connected.take limit = links node := by
    rw [List.take_of_length_le whole]
    exact ahead.links node
  have stepped : network.step A (.broadcast node limit : RegistryEvent P) = _ := if_neg due
  generalize network.step A (.broadcast node limit : RegistryEvent P) = next at stepped
  have peers : next.peer = Function.update network.peer node
      { network.peer node with due := (network.peer node).due - 1 } := by rw [stepped]; rfl
  have sent : next.requests = network.requests ++ (links node).map fun destination =>
      ⟨node, destination, (network.peer node).registry.records.vals⟩ := by rw [stepped, all]
  have replies : next.replies = network.replies := by rw [stepped]; rfl
  have broadcasts : next.broadcasts = count network.broadcasts node true := by rw [stepped]
  have holds : ∀ other, (next.peer other).registry = h ↔ (network.peer other).registry = h := by
    intro other
    rw [has_after peers has]
    exact ⟨fun either => either.elim id fun here => here ▸ has, Or.inl⟩
  refine ⟨ahead.withPeer peers rfl (ahead.within node) ?_ ?_, ?_, ?_, ?_⟩
  · intro request member
    rw [sent] at member
    rcases List.mem_append.mp member with before | made
    · exact (ahead.requests request before).imp_right (holds _).mpr
    · obtain ⟨destination, _, rfl⟩ := List.mem_map.mp made
      exact ⟨congrArg (fun g => g.records.vals) has, (holds node).mpr has⟩
  · intro reply member
    exact (ahead.replies reply (replies ▸ member)).imp_right (holds _).mpr
  · refine .pass node (links node) holds ?_ ?_ rfl
    · intro other
      show (network.peer other).due = (next.peer other).due + _
      rw [due_after peers]
      split
      · rename_i here
        subst here
        dsimp only
        omega
      · rfl
    · show next.requests.map _ = network.requests.map _ ++ links node
      rw [sent, List.map_append, List.map_map]
      exact congrArg _ (List.map_id _)
  · intro pass member
    rcases List.mem_append.mp member with before | made
    · exact Or.inl before
    · rw [List.mem_singleton] at made
      subst made
      exact Or.inr rfl
  · intro other
    have passes : (flood h next (passed ++ [(node, links node)])).passes other =
        (flood h network passed).passes other + if other = node then 1 else 0 := Flood.passes_pass rfl other
    rw [passes, broadcasts]
    split
    · rename_i here
      subst here
      rw [count_same, Bool.toNat_true]
      omega
    · rename_i away
      rw [count_other _ away]
      rfl

theorem Ahead.receive (valid : Valid P h) (wf : WellFormed P h) (ahead : Ahead h links network) {index : Nat}
    {request : CheckpointRequest} (found : network.requests[index]? = some request) :
    Relayed h links network (network.step A (.receive index true : RegistryEvent P)) passed passed := by
  obtain ⟨whole, source⟩ := ahead.requests request (List.mem_of_getElem? found)
  obtain ⟨answer, has, learned⟩ := merge_ahead (P := P) valid wf (ahead.within request.destination)
  generalize stepped : network.step A (.receive index true : RegistryEvent P) = next
  simp only [RegistryNetwork.step, found, whole] at stepped
  have peers : next.peer = Function.update network.peer request.destination
      { network.peer request.destination with
        enrollment := (mergeRegistryCheckpoint P (network.peer request.destination).enrollment h.records.vals true).2
        due := (network.peer request.destination).due + (mergeRegistryCheckpoint P
          (network.peer request.destination).enrollment h.records.vals true).1.2.toNat } := by rw [← stepped]; rfl
  have left : next.requests = network.requests.eraseIdx index := by rw [← stepped]
  have replies : next.replies = network.replies ++ [⟨request.destination, request.source,
      (mergeRegistryCheckpoint P (network.peer request.destination).enrollment h.records.vals true).1.1⟩] := by
    rw [← stepped]
  have broadcasts : next.broadcasts = network.broadcasts := by rw [← stepped]; rfl
  have within : Extends (mergeRegistryCheckpoint P (network.peer request.destination).enrollment
      h.records.vals true).2.registry h := by
    rw [has]
    exact .refl h
  have holds := has_after peers has
  have landed : (network.requests.map CheckpointRequest.destination).Perm
      (request.destination :: next.requests.map CheckpointRequest.destination) := by
    obtain ⟨inside, rfl⟩ := List.getElem?_eq_some_iff.mp found
    rw [left]
    exact (List.getElem_cons_eraseIdx_perm inside).symm.map CheckpointRequest.destination
  refine ⟨ahead.withPeer peers rfl within ?_ ?_, ?_, fun _ => Or.inl, ?_⟩
  · intro other member
    rw [left] at member
    obtain ⟨payload, origin⟩ := ahead.requests other (List.mem_of_mem_eraseIdx member)
    exact ⟨payload, (holds _).mpr (Or.inl origin)⟩
  · intro reply member
    rw [replies] at member
    rcases List.mem_append.mp member with before | made
    · exact (ahead.replies reply before).imp_right fun had => (holds _).mpr (Or.inl had)
    · rw [List.mem_singleton] at made
      subst made
      exact ⟨answer, (holds _).mpr (Or.inl source)⟩
  · by_cases had : (network.peer request.destination).registry = h
    · have quiet := Bool.eq_false_iff.mpr (mt learned.mp (not_not.mpr had))
      refine .refuse request.destination had (fun other => (holds other).trans ?_) (fun other => ?_) landed rfl
      · exact ⟨fun either => either.elim id fun here => here ▸ had, Or.inl⟩
      · refine (due_after peers other).trans ?_
        rw [quiet]
        split
        · rename_i here
          rw [here]
          rfl
        · rfl
    · refine .take request.destination had holds (fun other => ?_) (Or.inr landed) rfl
      refine (due_after peers other).trans ?_
      rw [learned.mpr had]
      split
      · rename_i here
        rw [here]
        rfl
      · rfl
  · intro other
    rw [broadcasts]
    rfl

theorem Ahead.merge (valid : Valid P h) (wf : WellFormed P h) (ahead : Ahead h links network) {index : Nat}
    {reply : CheckpointReply} (found : network.replies[index]? = some reply) :
    Relayed h links network (network.step A (.merge index true : RegistryEvent P)) passed passed := by
  obtain ⟨applied, had⟩ := ahead.replies reply (List.mem_of_getElem? found)
  obtain ⟨source, destination, response⟩ := reply
  dsimp only at applied had
  subst applied
  obtain ⟨_, has, _⟩ := merge_ahead (P := P) valid wf (ahead.within destination)
  generalize stepped : network.step A (.merge index true : RegistryEvent P) = next
  simp only [RegistryNetwork.step, found] at stepped
  have peers : next.peer = Function.update network.peer destination
      { network.peer destination with
        enrollment := (mergeRegistryCheckpoint P (network.peer destination).enrollment h.records.vals true).2 } := by
    rw [← stepped]
    rfl
  have left : next.replies = network.replies.eraseIdx index := by rw [← stepped]
  have requests : next.requests = network.requests := by rw [← stepped]; rfl
  have broadcasts : next.broadcasts = network.broadcasts := by rw [← stepped]; rfl
  have within : Extends (mergeRegistryCheckpoint P (network.peer destination).enrollment
      h.records.vals true).2.registry h := by
    rw [has]
    exact .refl h
  have holds : ∀ other, (next.peer other).registry = h ↔ (network.peer other).registry = h := by
    intro other
    rw [has_after peers has]
    exact ⟨fun either => either.elim id fun here => here ▸ had, Or.inl⟩
  refine ⟨ahead.withPeer peers rfl within ?_ ?_, ?_, fun _ => Or.inl, ?_⟩
  · intro request member
    exact (ahead.requests request (requests ▸ member)).imp_right (holds _).mpr
  · intro other member
    rw [left] at member
    exact (ahead.replies other (List.mem_of_mem_eraseIdx member)).imp_right (holds _).mpr
  · refine .idle holds (fun other => ?_) ?_ rfl
    · refine (due_after peers other).trans ?_
      split
      · rename_i here
        rw [here]
        rfl
      · rfl
    · show (network.requests.map _).Perm (next.requests.map _)
      rw [requests]
  · intro other
    rw [broadcasts]
    rfl

/-- A step of the cascade without a loss. -/
theorem Ahead.step (valid : Valid P h) (wf : WellFormed P h) (ahead : Ahead h links network)
    (once : Flood.Once (flood h network passed)) {event : RegistryEvent P} (relays : Relays event)
    (kept : Keeps network event) : ∃ more, Relayed h links network (network.step A event) passed more := by
  cases event with
  | broadcast node limit =>
    by_cases due : (network.peer node).due = 0
    · have still : network.step A (.broadcast node limit : RegistryEvent P) = network := if_pos due
      rw [still]
      exact ⟨passed, ahead.idle⟩
    · have has : (network.peer node).registry = h := by
        by_contra behind
        have zero : (network.peer node).due + _ = 0 := once.none node behind
        omega
      exact ⟨_, ahead.broadcast A has due kept⟩
  | receive index committed =>
    cases (show committed = true from kept)
    cases found : network.requests[index]? with
    | none =>
      have still : network.step A (.receive index true : RegistryEvent P) = network := by
        simp only [RegistryNetwork.step, found]
      rw [still]
      exact ⟨passed, ahead.idle⟩
    | some request => exact ⟨passed, ahead.receive A valid wf found⟩
  | merge index committed =>
    cases (show committed = true from kept)
    cases found : network.replies[index]? with
    | none =>
      have still : network.step A (.merge index true : RegistryEvent P) = network := by
        simp only [RegistryNetwork.step, found]
      rw [still]
      exact ⟨passed, ahead.idle⟩
    | some reply => exact ⟨passed, ahead.merge A valid wf found⟩
  | link | notice | loseRequest | loseReply | enroll => exact relays.elim

/-- The whole cascade. -/
structure Cascade (h : AuthorizationRegistry) (links : NodeId → List NodeId) (network : RegistryNetwork)
    (passed : List (NodeId × List NodeId)) : Prop where
  ahead : Ahead h links network
  once : Flood.Once (flood h network passed)
  spreads : Flood.Spreads (flood h network passed)
  targets : ∀ pass ∈ passed, pass.2 = links pass.1

theorem Cascade.run (valid : Valid P h) (wf : WellFormed P h) {events : List (RegistryEvent P)}
    (relays : ∀ event ∈ events, Relays event) (kept : Steps (RegistryNetwork.step A) Keeps network events)
    (cascade : Cascade h links network passed) :
    ∃ more, Cascade h links (network.run A events) more ∧
      ∀ node, (network.run A events).broadcasts node + (flood h network passed).passes node =
        network.broadcasts node + (flood h (network.run A events) more).passes node := by
  induction events generalizing network passed with
  | nil => exact ⟨passed, cascade, fun _ => rfl⟩
  | cons event rest ih =>
    obtain ⟨more, next⟩ := cascade.ahead.step A valid wf cascade.once (relays event List.mem_cons_self) kept.1
    have stepped : Cascade h links (network.step A event) more := by
      refine ⟨next.ahead, cascade.once.step (Or.inl next.clean), cascade.spreads.clean cascade.once next.clean, ?_⟩
      intro pass member
      exact (next.targets pass member).elim (cascade.targets pass) id
    obtain ⟨last, whole, counted⟩ :=
      ih (fun later member => relays later (List.mem_cons_of_mem _ member)) kept.2 stepped
    refine ⟨last, whole, fun node => ?_⟩
    have first := next.counted node
    have later := counted node
    have moved : network.run A (event :: rest) = (network.step A event).run A rest := rfl
    rw [moved]
    omega

end Ahead

/-- One node is about to broadcast a registry that is ahead of all others, and nothing else is under way. -/
structure Starting (a : NodeId) (network : RegistryNetwork) : Prop where
  requests : network.requests = []
  replies : network.replies = []
  due : ∀ node, (network.peer node).due = if node = a then 1 else 0
  behind : ∀ node, (network.peer node).registry = (network.peer a).registry → node = a
  within : ∀ node, Extends (network.peer node).registry (network.peer a).registry

theorem Starting.cascade {a : NodeId} (start : Starting a network) :
    Cascade (network.peer a).registry (fun node => (network.peer node).connected) network [] := by
  have nothing : ∀ node, (flood (network.peer a).registry network []).passes node = 0 := fun _ => rfl
  refine ⟨⟨fun _ => rfl, start.within, ?_, ?_⟩, ⟨fun node => ?_, fun node behind => ?_⟩, ⟨fun node has => ?_, ?_⟩, ?_⟩
  · intro request member
    rw [start.requests] at member
    cases member
  · intro reply member
    rw [start.replies] at member
    cases member
  · rw [nothing]
    refine (start.due node).trans_le ?_
    split <;> omega
  · rw [nothing]
    refine (start.due node).trans (if_neg ?_)
    rintro rfl
    exact behind rfl
  · rw [nothing]
    exact (start.due node).trans (if_pos (start.behind node has))
  · intro pass member
    cases member
  · intro pass member
    cases member

/-- Where one registry is ahead of all the others, the cascade of its broadcast takes it to every node that the
links lead to, and each of them broadcasts once. -/
theorem cascade_reaches_all (network : RegistryNetwork) (events : List (RegistryEvent P)) (a b : NodeId)
    (valid : Valid P (network.peer a).registry) (wf : WellFormed P (network.peer a).registry)
    (start : Starting a network) (relays : ∀ event ∈ events, Relays event)
    (kept : Steps (RegistryNetwork.step A) Keeps network events) (settled : Settled (network.run A events))
    (path : Relation.ReflTransGen (fun x y => y ∈ (network.peer x).connected) a b) :
    ((network.run A events).peer b).registry = (network.peer a).registry ∧
      (network.run A events).broadcasts b = network.broadcasts b + 1 := by
  obtain ⟨last, cascade, counted⟩ := start.cascade.run A valid wf relays kept
  have passes : ∀ node, ((network.run A events).peer node).registry = (network.peer a).registry →
      (flood (network.peer a).registry (network.run A events) last).passes node = 1 := by
    intro node has
    have once : ((network.run A events).peer node).due + _ = 1 := cascade.spreads.passes node has
    rw [settled.due] at once
    omega
  have arrived : ((network.run A events).peer b).registry = (network.peer a).registry := by
    induction path with
    | refl =>
      have grown := (run_accounts A network events a).grows.extends.records
      exact eq_of_both (cascade.ahead.within a) grown
    | @tail x y _ linked ih =>
      have some : 0 < last.countP fun pass => pass.1 = x := by
        have one := passes x ih
        rw [Flood.passes] at one
        exact one ▸ Nat.one_pos
      obtain ⟨pass, member, source⟩ := List.countP_pos_iff.mp some
      have told : y ∈ pass.2 := by
        rw [cascade.targets pass member, of_decide_eq_true source]
        exact linked
      rcases cascade.spreads.arrives pass member y told with has | flying
      · exact has
      · have none : (network.run A events).requests.map CheckpointRequest.destination = [] := by
          rw [settled.requests]
          rfl
        have under : y ∈ (network.run A events).requests.map CheckpointRequest.destination := flying
        rw [none] at under
        cases under
  refine ⟨arrived, ?_⟩
  have total := counted b
  rw [passes b arrived] at total
  exact total

/-! ### Along a line -/

/-- The node a step is about. -/
def acting (network : RegistryNetwork) : RegistryEvent P → Option NodeId
  | .link node _ => some node
  | .notice node => some node
  | .broadcast node _ => some node
  | .receive index _ => network.requests[index]?.map CheckpointRequest.destination
  | .merge index _ => network.replies[index]?.map CheckpointReply.destination
  | .loseRequest _ => none
  | .loseReply _ => none
  | .enroll node _ _ => some node

theorem step_elsewhere (network : RegistryNetwork) (event : RegistryEvent P) (node : NodeId)
    (away : acting network event ≠ some node) :
    (network.step A event).peer node = network.peer node := by
  cases event with
  | link actor connected => exact withPeer_other (fun same => away (congrArg some same.symm)) _
  | notice actor => exact withPeer_other (fun same => away (congrArg some same.symm)) _
  | broadcast actor limit =>
    rw [step]
    split
    · rfl
    · exact withPeer_other (fun same => away (congrArg some same.symm)) _
  | receive index committed =>
    rw [step]
    split
    · rename_i request found
      rw [acting, found] at away
      exact withPeer_other (fun same => away (congrArg some same.symm)) _
    · rfl
  | merge index committed =>
    rw [step]
    split
    · rename_i found
      rw [acting, found] at away
      exact withPeer_other (fun same => away (congrArg some same.symm)) _
    · rfl
    · rfl
  | loseRequest index => rfl
  | loseReply index => rfl
  | enroll actor call committed => exact withPeer_other (fun same => away (congrArg some same.symm)) _

section Line
open Transparent

theorem base_ne_grown : base ≠ grown := by
  intro same
  have sizes : base.records.size = 1 ∧ grown.records.size = 2 := by decide +kernel
  rw [← same] at sizes
  omega

theorem line_due (node : NodeId) : (line.peer node).due = if node = head then 1 else 0 := by
  by_cases first : node = head
  · simp [line, first]
  · by_cases second : node = middle
    · simp [line, second, show middle ≠ head by decide]
    · simp [line, first, second]

theorem line_starting : Starting head line where
  requests := rfl
  replies := rfl
  due := line_due
  behind := by
    intro node has
    rw [line_registry, line_registry, if_pos rfl] at has
    by_contra away
    rw [if_neg away] at has
    exact base_ne_grown has
  within := by
    intro node
    have whole : (line.peer head).registry = grown := line_registry head
    rw [whole]
    exact line_within node

theorem line_settled : Settled (line.run admissionPrimitives relay) where
  requests := List.isEmpty_iff.mp (by decide +kernel)
  replies := List.isEmpty_iff.mp (by decide +kernel)
  due := by
    intro node
    have all : ∀ actor ∈ actors (step admissionPrimitives) acting line relay, actor ∈ [head, middle, last] := by
      decide +kernel
    have done : ∀ actor ∈ [head, middle, last], ((line.run admissionPrimitives relay).peer actor).due = 0 := by
      decide +kernel
    by_cases listed : node ∈ [head, middle, last]
    · exact done node listed
    · have still : (line.run admissionPrimitives relay).peer node = line.peer node :=
        foldl_elsewhere (step admissionPrimitives) acting RegistryNetwork.peer (step_elsewhere admissionPrimitives)
          (mt (all node) listed)
      rw [still, line_due, if_neg]
      rintro rfl
      exact listed List.mem_cons_self

theorem relay_keeps : Steps (RegistryNetwork.step admissionPrimitives) Keeps line relay := by
  refine ⟨?_, rfl, rfl, ?_, rfl, rfl, rfl, rfl, ?_, rfl, rfl, trivial⟩
  · show _ ≤ 1
    decide +kernel
  · show _ ≤ 2
    decide +kernel
  · show _ ≤ 1
    decide +kernel

theorem cascade_reaches_last :
    ((line.run admissionPrimitives relay).peer last).registry = (line.peer head).registry ∧
      (line.run admissionPrimitives relay).broadcasts last = line.broadcasts last + 1 := by
  have whole : (line.peer head).registry = grown := line_registry head
  refine cascade_reaches_all admissionPrimitives line relay head last (whole ▸ grown_valid) (whole ▸ grown_wf)
    line_starting ?_ relay_keeps line_settled ?_
  · simp [relay, Relays]
  · have first : middle ∈ (line.peer head).connected := by decide
    have second : last ∈ (line.peer middle).connected := by decide
    exact (Relation.ReflTransGen.single first).tail second

end Line

end RegistryNetwork

end Lycoris.Daemon
