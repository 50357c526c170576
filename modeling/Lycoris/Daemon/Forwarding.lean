import Lycoris.Daemon.Invocation

/-!
Where an invocation goes. The candidates come from three sources that each have their own idea of
active: the membership, the annotations and the registry. The membership's idea takes in suspected
members.
-/

namespace Lycoris.Daemon
open Lib Cluster Overlay

/-! ### The candidates -/

theorem recorded_of_active {registry : AuthorizationRegistry} {node : NodeId}
    {record : AuthorizationRecord} (active : registry.status node = .active record) :
    ∃ held ∈ registry.records.vals, held.nodeId = node := by
  cases started : registry.roots node with
  | nil =>
    rw [AuthorizationRegistry.status, AuthorizationRegistry.status?, started] at active
    cases active
  | cons root rest =>
    have member : root ∈ registry.roots node := started ▸ List.mem_cons_self
    obtain ⟨held, shape⟩ := List.mem_filter.mp member
    exact ⟨root, held, of_decide_eq_true (Bool.and_eq_true_iff.mp shape).1⟩

namespace OverlayPool

variable (pool : OverlayPool) (localNode : NodeId)

theorem isActive_iff {registry : AuthorizationRegistry} {node : NodeId} :
    isActive registry node = true ↔ ∃ record, registry.status node = .active record := by
  rw [isActive]
  cases registry.status node <;> simp

theorem ne_local_of_authorized {node : NodeId} (listed : node ∈ pool.authorizedNodes localNode) :
    node ≠ localNode := by
  rw [authorizedNodes] at listed
  split at listed
  · exact of_decide_eq_true (List.mem_filter.mp listed).2
  · rw [List.mem_mergeSort, List.mem_dedup, List.mem_mergeSort] at listed
    exact of_decide_eq_true (Bool.and_eq_true_iff.mp (List.mem_filter.mp listed).2).1

section Enrolled

variable {pool} {registry : AuthorizationRegistry} (enrolled : pool.enrollment = some registry)
include enrolled

theorem mem_authorizedNodes {node : NodeId} : node ∈ pool.authorizedNodes localNode ↔
    node ≠ localNode ∧ ∃ record, registry.status node = .active record := by
  simp only [authorizedNodes, enrolled, List.mem_mergeSort, List.mem_dedup, List.mem_filter,
    Bool.and_eq_true_iff, isActive_iff, decide_eq_true_iff, List.mem_map]
  constructor
  · exact fun member => member.2
  · rintro ⟨other, record, active⟩
    exact ⟨recorded_of_active active, other, record, active⟩

theorem nodup_authorizedNodes : (pool.authorizedNodes localNode).Nodup := by
  rw [authorizedNodes, enrolled]
  exact (List.mergeSort_perm _ _).nodup_iff.mpr (List.nodup_dedup _)

end Enrolled

theorem before_iff {a b : NodeId} : pool.before a b = true ↔
    pool.rank a < pool.rank b ∨ pool.rank a = pool.rank b ∧ (compare a b).isLE = true := by
  simp [before]

theorem before_total (a b : NodeId) : (pool.before a b || pool.before b a) = true := by
  rw [Bool.or_eq_true_iff, before_iff, before_iff]
  rcases Nat.lt_trichotomy (pool.rank a) (pool.rank b) with less | same | more
  · exact Or.inl (Or.inl less)
  · have either : (compare a b).isLE = true ∨ (compare b a).isLE = true := by
      have swapped : compare b a = (compare a b).swap := Std.OrientedCmp.eq_swap
      rw [swapped]
      cases compare a b <;> simp
    rcases either with le | ge
    · exact Or.inl (Or.inr ⟨same, le⟩)
    · exact Or.inr (Or.inr ⟨same.symm, ge⟩)
  · exact Or.inr (Or.inl more)

theorem before_trans (a b c : NodeId) (first : pool.before a b = true) (second : pool.before b c = true) :
    pool.before a c = true := by
  rw [before_iff] at first second ⊢
  rcases first with less | ⟨same, le⟩
  · rcases second with less' | ⟨same', _⟩
    · exact Or.inl (less.trans less')
    · exact Or.inl (same' ▸ less)
  · rcases second with less' | ⟨same', le'⟩
    · exact Or.inl (same ▸ less')
    · exact Or.inr ⟨same.trans same', Std.TransCmp.isLE_trans le le'⟩

/-- Healthy nodes stand first, then those that are merely connected. -/
theorem ranked_authorizedNodes {pool : OverlayPool} {registry : AuthorizationRegistry}
    (enrolled : pool.enrollment = some registry) :
    (pool.authorizedNodes localNode).Pairwise fun a b => pool.rank a ≤ pool.rank b := by
  rw [authorizedNodes, enrolled]
  refine (List.pairwise_mergeSort pool.before_trans pool.before_total _).imp ?_
  intro a b sorted
  rcases pool.before_iff.mp sorted with less | ⟨same, _⟩
  · exact less.le
  · exact same.le

end OverlayPool

namespace ExtensionManager

variable (R : Rendering) (send : NodeId → ExtensionInvokeRequest → ForwardReply)

/-- Another node that is authorized and advertises the extension from a register in `state`. -/
def Advertises (manager : ExtensionManager) (registry : AuthorizationRegistry) (id : String)
    (state : MemberState) (node : NodeId) : Prop :=
  node ≠ manager.localNode ∧ (∃ record, registry.status node = .active record) ∧
    ∃ register, manager.membership.get (nodeIdText node) = some register ∧ register.state = state ∧
      register.annotations.contains (extensionAnnotationPrefix ++ id) = true

/-- The candidates as nodes. -/
def routeNodes (manager : ExtensionManager) (pool : OverlayPool) (order : HashOrder MemberRegister)
    (id : String) : List NodeId :=
  (pool.authorizedNodes manager.localNode).filter fun node =>
    nodeIdText node ∈ (((manager.listNodes order).filter fun register =>
      register.nodeId ≠ nodeIdText manager.localNode &&
        register.annotations.contains (extensionAnnotationPrefix ++ id)).map fun register => register.nodeId)

theorem routeCandidates_eq {manager : ExtensionManager} {pool : OverlayPool}
    (pooled : manager.pool = some pool) (order : HashOrder MemberRegister) (id : String) :
    manager.routeCandidates order id = (manager.routeNodes pool order id).map nodeIdText := by
  rw [routeCandidates, pooled]
  exact List.filter_map

theorem listNodes_eq (manager : ExtensionManager) (order : HashOrder MemberRegister) :
    manager.listNodes order = manager.membership.active order :=
  List.filter_eq_self.mpr fun register _ => matchesSelector_empty register.labels

theorem mem_routeNodes {manager : ExtensionManager} {pool : OverlayPool}
    {registry : AuthorizationRegistry} (enrolled : pool.enrollment = some registry)
    {order : HashOrder MemberRegister} {id : String} {node : NodeId} :
    node ∈ manager.routeNodes pool order id ↔
      ∃ state, state.isActive = true ∧ manager.Advertises registry id state node := by
  rw [routeNodes, List.mem_filter, OverlayPool.mem_authorizedNodes _ enrolled, decide_eq_true_iff, List.mem_map,
    listNodes_eq]
  constructor
  · rintro ⟨⟨other, authorized⟩, register, listed, named⟩
    obtain ⟨active, shape⟩ := List.mem_filter.mp listed
    obtain ⟨member, counted⟩ := List.mem_filter.mp active
    have found : manager.membership.get (nodeIdText node) = some register :=
      named ▸ KeyedMap.mem_iff.mp (KeyedMap.mem_iter.mp member)
    exact ⟨register.state, counted, other, authorized, register, found, rfl,
      (Bool.and_eq_true_iff.mp shape).2⟩
  · rintro ⟨state, counted, other, authorized, register, found, rfl, advertised⟩
    have named : register.nodeId = nodeIdText node := Membership.nodeId_of_get found
    have elsewhere : register.nodeId ≠ nodeIdText manager.localNode :=
      fun same => other (nodeIdText_injective (named.symm.trans same))
    refine ⟨⟨other, authorized⟩, register, List.mem_filter.mpr ⟨List.mem_filter.mpr
      ⟨KeyedMap.mem_iter.mpr (KeyedMap.mem_of_get? found), counted⟩, ?_⟩, named⟩
    exact Bool.and_eq_true_iff.mpr ⟨decide_eq_true elsewhere, advertised⟩

/-- Where no suspected member advertises the extension, the candidates are the active ones. -/
theorem mem_routeNodes_settled {manager : ExtensionManager} {pool : OverlayPool}
    {registry : AuthorizationRegistry} (enrolled : pool.enrollment = some registry) {id : String}
    (settled : ∀ node, ¬ manager.Advertises registry id .suspected node) {order : HashOrder MemberRegister}
    {node : NodeId} :
    node ∈ manager.routeNodes pool order id ↔ manager.Advertises registry id .active node := by
  rw [mem_routeNodes enrolled]
  constructor
  · rintro ⟨state, counted, advertises⟩
    cases state with
    | active => exact advertises
    | suspected => exact absurd advertises (settled node)
    | leaving => cases counted
    | offline => cases counted
  · exact fun advertises => ⟨.active, rfl, advertises⟩

theorem nodup_routeNodes (manager : ExtensionManager) {pool : OverlayPool}
    {registry : AuthorizationRegistry} (enrolled : pool.enrollment = some registry)
    (order : HashOrder MemberRegister) (id : String) : (manager.routeNodes pool order id).Nodup :=
  (OverlayPool.nodup_authorizedNodes manager.localNode enrolled).filter _

theorem ranked_routeNodes (manager : ExtensionManager) {pool : OverlayPool}
    {registry : AuthorizationRegistry} (enrolled : pool.enrollment = some registry)
    (order : HashOrder MemberRegister) (id : String) :
    (manager.routeNodes pool order id).Pairwise fun a b => pool.rank a ≤ pool.rank b :=
  (OverlayPool.ranked_authorizedNodes manager.localNode enrolled).filter _

/-! ### The attempts -/

/-- The peer gives the call no outcome. -/
def Refuses (request : ExtensionInvokeRequest) (node : NodeId) : Prop :=
  ∃ error, readReply (send node request) = .error error

theorem forward_served {node : NodeId} {request : ExtensionInvokeRequest} {outcome : InvokeOutcome}
    (success : readReply (send node request) = .ok outcome) :
    forward R send (nodeIdText node) request = (.ok outcome, [(node, request)]) := by
  simp only [forward, parseNodeId_nodeIdText, success]

theorem forward_refused {node : NodeId} {request : ExtensionInvokeRequest} {error : ClientError}
    (failure : readReply (send node request) = .error error) :
    forward R send (nodeIdText node) request = (.error (.forwarded error), [(node, request)]) := by
  simp only [forward, parseNodeId_nodeIdText, failure]

/-- The requests that go to nodes one after the other. -/
def sentTo (request : ExtensionInvokeRequest) (nodes : List NodeId) :
    List (NodeId × ExtensionInvokeRequest) := nodes.map fun node => (node, request)

/-- How the loop can end: at the first peer that succeeds, or after all of them refused. -/
inductive Tried (total : Nat) (request : ExtensionInvokeRequest) (nodes : List NodeId) :
    Except ExtensionManagerError InvokeOutcome × List (NodeId × ExtensionInvokeRequest) → Prop
  | served {earlier later : List NodeId} {node : NodeId} {outcome : InvokeOutcome}
      (split : nodes = earlier ++ node :: later) (refused : ∀ peer ∈ earlier, Refuses send request peer)
      (success : readReply (send node request) = .ok outcome) :
      Tried total request nodes (.ok outcome, sentTo request (earlier ++ [node]))
  | exhausted {message : String} (refused : ∀ peer ∈ nodes, Refuses send request peer) :
      Tried total request nodes
        (.error (.unavailable request.extensionId total message), sentTo request nodes)

theorem tried_tryCandidates (total : Nat) (request : ExtensionInvokeRequest) (nodes : List NodeId)
    (lastError : Option ExtensionManagerError) :
    Tried send total request nodes (tryCandidates R send total request (nodes.map nodeIdText) lastError) := by
  induction nodes generalizing lastError with
  | nil => exact .exhausted (by simp)
  | cons node rest ih =>
    rw [List.map_cons, tryCandidates]
    cases replied : readReply (send node request) with
    | ok outcome =>
      rw [forward_served R send replied]
      exact .served (List.nil_append _).symm (by simp) replied
    | error error =>
      rw [forward_refused R send replied]
      have refuses : Refuses send request node := ⟨error, replied⟩
      have continued := ih (some (.forwarded error))
      revert continued
      dsimp only
      generalize tryCandidates R send total request (rest.map nodeIdText) (some (.forwarded error)) = later
      rintro (⟨split, refused, success⟩ | ⟨refused⟩)
      · subst split
        exact .served (List.cons_append ..).symm (List.forall_mem_cons.mpr ⟨refuses, refused⟩) success
      · exact .exhausted (List.forall_mem_cons.mpr ⟨refuses, refused⟩)

/-- What a call without an origin comes to when it is not served here. -/
inductive RoutedTo (request : ExtensionInvokeRequest) (nodes : List NodeId) :
    Except ExtensionManagerError InvokeOutcome × List (NodeId × ExtensionInvokeRequest) → Prop
  | nowhere (none : nodes = []) : RoutedTo request nodes (.error (.notFound request.extensionId), [])
  | tried {answer : Except ExtensionManagerError InvokeOutcome × List (NodeId × ExtensionInvokeRequest)}
      (some : nodes ≠ []) (tried : Tried send nodes.length request nodes answer) :
      RoutedTo request nodes answer

theorem map_fst_sentTo (request : ExtensionInvokeRequest) (nodes : List NodeId) :
    (sentTo request nodes).map Prod.fst = nodes := by
  simp [sentTo, Function.comp_def]

theorem mem_sentTo {request : ExtensionInvokeRequest} {nodes : List NodeId}
    {sent : NodeId × ExtensionInvokeRequest} :
    sent ∈ sentTo request nodes ↔ sent.1 ∈ nodes ∧ sent.2 = request := by
  constructor
  · intro member
    obtain ⟨node, asked, rfl⟩ := List.mem_map.mp member
    exact ⟨asked, rfl⟩
  · rintro ⟨asked, rfl⟩
    exact List.mem_map_of_mem asked

section Attempts

variable {send}
variable {total : Nat} {request : ExtensionInvokeRequest} {nodes : List NodeId}
  {answer : Except ExtensionManagerError InvokeOutcome × List (NodeId × ExtensionInvokeRequest)}

/-- The peers that are asked are the first candidates, in their order. -/
theorem Tried.asked (tried : Tried send total request nodes answer) :
    ∃ asked, answer.2 = sentTo request asked ∧ asked.Sublist nodes := by
  cases tried with
  | @served earlier later node outcome split refused success =>
    have whole : nodes = (earlier ++ [node]) ++ later := split.trans (List.append_cons ..)
    exact ⟨_, rfl, whole ▸ List.sublist_append_left _ later⟩
  | exhausted refused => exact ⟨nodes, rfl, List.Sublist.refl _⟩

theorem RoutedTo.asked (routed : RoutedTo send request nodes answer) :
    ∃ asked, answer.2 = sentTo request asked ∧ asked.Sublist nodes := by
  cases routed with
  | nowhere none => exact ⟨[], rfl, List.nil_sublist _⟩
  | tried some tried => exact tried.asked

theorem RoutedTo.sent_mem (routed : RoutedTo send request nodes answer)
    {sent : NodeId × ExtensionInvokeRequest} (member : sent ∈ answer.2) :
    sent.1 ∈ nodes ∧ sent.2 = request := by
  obtain ⟨asked, all, part⟩ := routed.asked
  rw [all] at member
  exact ⟨part.subset (mem_sentTo.mp member).1, (mem_sentTo.mp member).2⟩

/-- All attempts but the last failed. -/
theorem RoutedTo.stops (routed : RoutedTo send request nodes answer)
    {sent : NodeId × ExtensionInvokeRequest} (member : sent ∈ answer.2.dropLast) :
    Refuses send sent.2 sent.1 := by
  cases routed with
  | nowhere none => cases member
  | tried some tried =>
    cases tried with
    | @served earlier later node outcome split refused success =>
      have before : (sentTo request (earlier ++ [node])).dropLast = sentTo request earlier := by
        rw [sentTo, List.map_append, List.map_singleton, List.dropLast_concat]
        rfl
      obtain ⟨asked, rfl⟩ := mem_sentTo.mp (before ▸ member)
      exact refused _ asked
    | exhausted refused =>
      obtain ⟨asked, rfl⟩ := mem_sentTo.mp (List.mem_of_mem_dropLast member)
      exact refused _ asked

theorem RoutedTo.asked_all (routed : RoutedTo send request nodes answer)
    (refusing : ∀ node, Refuses send request node) {node : NodeId} (listed : node ∈ nodes) :
    (node, request) ∈ answer.2 := by
  cases routed with
  | nowhere none =>
    rw [none] at listed
    cases listed
  | tried some tried =>
    cases tried with
    | @served earlier later last outcome split refused success =>
      obtain ⟨error, refuses⟩ := refusing last
      rw [refuses] at success
      cases success
    | exhausted refused => exact mem_sentTo.mpr ⟨listed, rfl⟩

end Attempts

/-- A call with an origin goes no further. -/
theorem invoke_forwarded (manager : ExtensionManager) (order : HashOrder MemberRegister)
    (instance' : LocalInstance) (id method : String) (payload : Overlay.Bytes) (origin : String) :
    (manager.invoke R send order instance' id method payload (some origin)).2 = [] := by
  cases instance' with
  | absent => rfl
  | vanished => rfl
  | answers result => cases result <;> rfl

section Calls

variable {manager : ExtensionManager} {order : HashOrder MemberRegister} {instance' : LocalInstance}
  {id method : String} {payload : Overlay.Bytes}

theorem route_pooled {pool : OverlayPool} (pooled : manager.pool = some pool) :
    RoutedTo send ⟨id, method, payload, nodeIdText manager.localNode⟩ (manager.routeNodes pool order id)
      (manager.route R send order id method payload none) := by
  rw [route, routeCandidates_eq pooled, pooled]
  cases nodes : manager.routeNodes pool order id with
  | nil => exact .nowhere rfl
  | cons node rest =>
    have attempts := tried_tryCandidates R send (node :: rest).length
      ⟨id, method, payload, nodeIdText manager.localNode⟩ (node :: rest) none
    refine .tried (List.cons_ne_nil _ _) ?_
    simpa using attempts

theorem route_unpooled (unpooled : manager.pool = none) :
    (manager.route R send order id method payload none).2 = [] := by
  simp only [route, unpooled, Option.isSome_none, Option.isNone_none, Bool.false_eq_true, if_false, if_true]
  split <;> rfl

theorem sent_route {peer : NodeId} {request : ExtensionInvokeRequest}
    (sent : (peer, request) ∈ (manager.route R send order id method payload none).2) :
    peer ≠ manager.localNode := by
  cases pooled : manager.pool with
  | none =>
    rw [route_unpooled R send pooled] at sent
    cases sent
  | some pool =>
    have listed := ((route_pooled R send pooled).sent_mem sent).1
    exact pool.ne_local_of_authorized manager.localNode (List.mem_of_mem_filter listed)

/-- A request leaves a node only for a call without an origin, and for another node. -/
theorem sent_invoke {origin : Option String} {peer : NodeId} {request : ExtensionInvokeRequest}
    (sent : (peer, request) ∈ (manager.invoke R send order instance' id method payload origin).2) :
    origin = none ∧ peer ≠ manager.localNode := by
  cases origin with
  | some origin =>
    rw [invoke_forwarded] at sent
    cases sent
  | none =>
    refine ⟨rfl, ?_⟩
    cases instance' with
    | absent => exact sent_route R send sent
    | vanished => exact sent_route R send sent
    | answers result =>
      cases result with
      | ok payload => cases sent
      | error text => cases sent

theorem invoke_unserved (gone : instance' = .absent ∨ instance' = .vanished) :
    manager.invoke R send order instance' id method payload none =
      manager.route R send order id method payload none := by
  rcases gone with rfl | rfl <;> rfl

end Calls

/-! ### The rules of routing -/

/-- The forwarding of a call as the rules have it: to active members only, each asked once and in the
order of their ranks, until one of them succeeds. -/
structure Routed (manager : ExtensionManager) (pool : OverlayPool) (registry : AuthorizationRegistry)
    (id method : String) (payload : Overlay.Bytes)
    (answer : Except ExtensionManagerError InvokeOutcome × List (NodeId × ExtensionInvokeRequest)) :
    Prop where
  allowed : ∀ sent ∈ answer.2, manager.Advertises registry id .active sent.1 ∧
    sent.2 = ⟨id, method, payload, nodeIdText manager.localNode⟩
  once : (answer.2.map Prod.fst).Nodup
  ranked : (answer.2.map Prod.fst).Pairwise fun a b => pool.rank a ≤ pool.rank b
  stops : ∀ sent ∈ answer.2.dropLast, Refuses send sent.2 sent.1
  served : ∀ outcome, answer.1 = .ok outcome ↔
    ∃ earlier sent, answer.2 = earlier ++ [sent] ∧ readReply (send sent.1 sent.2) = .ok outcome
  notFound : answer.1 = .error (.notFound id) ↔ ∀ node, ¬ manager.Advertises registry id .active node
  unavailable : (∃ candidates message, answer.1 = .error (.unavailable id candidates message)) ↔
    (∃ node, manager.Advertises registry id .active node) ∧
      ∀ node, manager.Advertises registry id .active node → ∃ sent ∈ answer.2, sent.1 = node ∧
        Refuses send sent.2 node

section Rules

variable {send} {manager : ExtensionManager} {pool : OverlayPool} {registry : AuthorizationRegistry}
  {id method : String} {payload : Overlay.Bytes} {nodes : List NodeId} {request : ExtensionInvokeRequest}
  {answer : Except ExtensionManagerError InvokeOutcome × List (NodeId × ExtensionInvokeRequest)}

/-- An answer with an outcome is the last peer's, and an error has none behind it. -/
theorem RoutedTo.served (routed : RoutedTo send request nodes answer) (outcome : InvokeOutcome) :
    answer.1 = .ok outcome ↔
      ∃ earlier sent, answer.2 = earlier ++ [sent] ∧ readReply (send sent.1 sent.2) = .ok outcome := by
  cases routed with
  | nowhere none => simp
  | tried some tried =>
    cases tried with
    | @served earlier later node outcome' split refused success =>
      have whole : sentTo request (earlier ++ [node]) = sentTo request earlier ++ [(node, request)] := by
        simp [sentTo]
      constructor
      · intro same
        cases same
        exact ⟨_, _, whole, success⟩
      · rintro ⟨front, sent, asked, replied⟩
        obtain ⟨-, last⟩ := List.append_inj' (whole.symm.trans asked) rfl
        cases last
        exact congrArg Except.ok (Except.ok.inj (success.symm.trans replied))
    | exhausted refused =>
      constructor
      · intro same
        cases same
      · rintro ⟨front, sent, asked, replied⟩
        have member : sent ∈ sentTo request nodes := by
          rw [show sentTo request nodes = front ++ [sent] from asked]
          exact List.mem_append_right _ (List.mem_singleton_self _)
        obtain ⟨listed, rfl⟩ := mem_sentTo.mp member
        obtain ⟨error, refuses⟩ := refused _ listed
        rw [refuses] at replied
        cases replied

theorem RoutedTo.notFound (routed : RoutedTo send request nodes answer) :
    answer.1 = .error (.notFound request.extensionId) ↔ nodes = [] := by
  cases routed with
  | nowhere none => exact ⟨fun _ => none, fun _ => rfl⟩
  | tried some tried =>
    refine ⟨fun same => ?_, fun none => absurd none some⟩
    cases tried <;> cases same

theorem RoutedTo.unavailable (routed : RoutedTo send request nodes answer) :
    (∃ candidates message, answer.1 = .error (.unavailable request.extensionId candidates message)) ↔
      nodes ≠ [] ∧ ∀ node ∈ nodes, ∃ sent ∈ answer.2, sent.1 = node ∧ Refuses send sent.2 node := by
  cases routed with
  | nowhere none => simp [none]
  | tried some tried =>
    cases tried with
    | @served earlier later node outcome split refused success =>
      constructor
      · rintro ⟨_, _, wrong⟩
        cases wrong
      · rintro ⟨-, all⟩
        have last : node ∈ nodes := split ▸ List.mem_append_right _ List.mem_cons_self
        obtain ⟨sent, asked, -, error, refuses⟩ := all node last
        rw [(mem_sentTo.mp asked).2, success] at refuses
        cases refuses
    | exhausted refused =>
      refine ⟨fun _ => ⟨some, fun node listed => ?_⟩, fun _ => ⟨_, _, rfl⟩⟩
      exact ⟨(node, request), mem_sentTo.mpr ⟨listed, rfl⟩, rfl, refused node listed⟩

/-- Where the candidates are the active members, the call is routed by the rules. -/
theorem RoutedTo.routed (exact' : ∀ node, node ∈ nodes ↔ manager.Advertises registry id .active node)
    (distinct : nodes.Nodup) (ranked : nodes.Pairwise fun a b => pool.rank a ≤ pool.rank b)
    (routed : RoutedTo send ⟨id, method, payload, nodeIdText manager.localNode⟩ nodes answer) :
    manager.Routed send pool registry id method payload answer := by
  obtain ⟨asked, sent, part⟩ := routed.asked
  have peers : answer.2.map Prod.fst = asked := by rw [sent, map_fst_sentTo]
  refine ⟨?_, ?_, ?_, fun _ => routed.stops, routed.served, ?_, ?_⟩
  · intro sent member
    exact ⟨(exact' _).mp (routed.sent_mem member).1, (routed.sent_mem member).2⟩
  · exact peers ▸ distinct.sublist part
  · exact peers ▸ ranked.sublist part
  · refine routed.notFound.trans ?_
    rw [List.eq_nil_iff_forall_not_mem]
    exact forall_congr' fun node => not_congr (exact' node)
  · refine routed.unavailable.trans ?_
    rw [ne_eq, List.eq_nil_iff_forall_not_mem]
    simp only [not_forall, not_not, exact']

end Rules

/-- A call that every peer refuses reaches every candidate. -/
theorem asked_of_empty {manager : ExtensionManager} {pool : OverlayPool} (pooled : manager.pool = some pool)
    {order : HashOrder MemberRegister} {id method : String} {payload : Overlay.Bytes} {node : NodeId}
    (listed : node ∈ manager.routeNodes pool order id) :
    (node, ⟨id, method, payload, nodeIdText manager.localNode⟩) ∈
      (manager.invoke R (fun _ _ => .empty) order .absent id method payload none).2 := by
  rw [invoke_unserved R _ (Or.inl rfl)]
  exact (route_pooled R _ pooled).asked_all (fun _ => ⟨_, rfl⟩) listed

/-- A suspected member among the candidates shows when the call reaches all of them. -/
theorem settled_of_routed {manager : ExtensionManager} {pool : OverlayPool}
    {registry : AuthorizationRegistry} (pooled : manager.pool = some pool)
    (enrolled : pool.enrollment = some registry) {order : HashOrder MemberRegister} {id method : String}
    {payload : Overlay.Bytes} (routed : manager.Routed (fun _ _ => .empty) pool registry id method payload
      (manager.invoke R (fun _ _ => .empty) order .absent id method payload none)) (node : NodeId) :
    ¬ manager.Advertises registry id .suspected node := by
  intro suspected
  have listed : node ∈ manager.routeNodes pool order id :=
    (mem_routeNodes enrolled).mpr ⟨.suspected, rfl, suspected⟩
  obtain ⟨_, _, register, found, active, _⟩ := (routed.allowed _ (asked_of_empty R pooled listed)).1
  obtain ⟨_, _, register', found', state, _⟩ := suspected
  rw [found] at found'
  cases found'
  rw [active] at state
  cases state

end ExtensionManager

/-! ### The network -/

/-- Serving a call at one node makes a call at another. What either node sees is arbitrary, and it may
see something else for each call. -/
inductive Causes (R : Rendering) (jsonError : Overlay.Bytes → Option String) :
    NodeId × Call → NodeId × Call → Prop
  | hop {manager : ExtensionManager} {send : NodeId → ExtensionInvokeRequest → ForwardReply}
      {order : HashOrder MemberRegister} {instance' : LocalInstance} {call next : Call} {peer : NodeId}
      {request : ExtensionInvokeRequest}
      (sent : (peer, request) ∈
        (manager.invoke R send order instance' call.id call.method call.payload call.origin).2)
      (accepted : OverlayExtensionRequestHandler.accept jsonError request = .ok next) :
      Causes R jsonError (manager.localNode, call) (peer, next)

namespace Causes

variable {R : Rendering} {jsonError : Overlay.Bytes → Option String}

/-- A call that a peer makes carries an origin. -/
theorem origin_of_accept {request : ExtensionInvokeRequest} {call : Call}
    (accepted : OverlayExtensionRequestHandler.accept jsonError request = .ok call) :
    call.origin = some request.originNodeId := by
  unfold OverlayExtensionRequestHandler.accept at accepted
  split at accepted
  · cases accepted
  · split at accepted
    · cases accepted
    · split at accepted
      · cases accepted
      · cases accepted
        rfl

/-- A node passes nothing on for a peer. -/
theorem handle_sends_nothing (send : NodeId → ExtensionInvokeRequest → ForwardReply)
    (manager : ExtensionManager) (order : HashOrder MemberRegister) (instance' : LocalInstance)
    (request : ExtensionInvokeRequest) :
    (OverlayExtensionRequestHandler.handle R send jsonError manager order instance' request).2 = [] := by
  rw [OverlayExtensionRequestHandler.handle]
  cases accepted : OverlayExtensionRequestHandler.accept jsonError request with
  | error reason => rfl
  | ok call =>
    have silent := manager.invoke_forwarded R send order instance' call.id call.method call.payload
      request.originNodeId
    dsimp only
    rw [origin_of_accept accepted]
    cases answer : manager.invoke R send order instance' call.id call.method call.payload
      (some request.originNodeId) with
    | mk result sent =>
      rw [answer] at silent
      cases result <;> exact silent

theorem hop_spec {a b : NodeId × Call} (causes : Causes R jsonError a b) :
    a.2.origin = none ∧ b.2.origin ≠ none ∧ a.1 ≠ b.1 := by
  cases causes with
  | hop sent accepted =>
    obtain ⟨direct, other⟩ := ExtensionManager.sent_invoke R _ sent
    refine ⟨direct, ?_, other.symm⟩
    rw [origin_of_accept accepted]
    exact Option.some_ne_none _

/-- A chain of calls makes one hop at most, and it leaves the node where it starts. -/
theorem short {calls : List (NodeId × Call)} (chain : calls.IsChain (Causes R jsonError)) :
    calls.length ≤ 2 ∧ (calls.map Prod.fst).Nodup := by
  cases chain with
  | nil => simp
  | singleton => simp
  | cons_cons first rest =>
    cases rest with
    | singleton => simpa using first.hop_spec.2.2
    | cons_cons second _ => exact absurd second.hop_spec.1 first.hop_spec.2.1

end Causes

/-- Calls without an origin are routed by the rules exactly where no suspected member that is
authorized advertises the extension: the membership counts suspected members as active. Calls with an
origin are not forwarded, and over any number of nodes a call makes one hop at most. -/
theorem invocation_routing (R : Rendering) (jsonError : Overlay.Bytes → Option String) :
    (∀ (manager : ExtensionManager) (pool : OverlayPool) (registry : AuthorizationRegistry) (id : String),
      manager.pool = some pool → pool.enrollment = some registry →
      ((∀ (send : NodeId → ExtensionInvokeRequest → ForwardReply) (order : HashOrder MemberRegister)
          (instance' : LocalInstance) (method : String) (payload : Overlay.Bytes),
          instance' = .absent ∨ instance' = .vanished →
          manager.Routed send pool registry id method payload
            (manager.invoke R send order instance' id method payload none)) ↔
        ∀ node, ¬ manager.Advertises registry id .suspected node)) ∧
    (∀ (manager : ExtensionManager) (send : NodeId → ExtensionInvokeRequest → ForwardReply)
      (order : HashOrder MemberRegister) (instance' : LocalInstance) (id method : String)
      (payload : Overlay.Bytes) (origin : String),
      (manager.invoke R send order instance' id method payload (some origin)).2 = []) ∧
    (∀ (manager : ExtensionManager) (send : NodeId → ExtensionInvokeRequest → ForwardReply)
      (order : HashOrder MemberRegister) (instance' : LocalInstance) (request : ExtensionInvokeRequest),
      (OverlayExtensionRequestHandler.handle R send jsonError manager order instance' request).2 = []) ∧
    ∀ calls : List (NodeId × Call), calls.IsChain (Causes R jsonError) →
      calls.length ≤ 2 ∧ (calls.map Prod.fst).Nodup := by
  refine ⟨?_, ?_, ?_, fun _ => Causes.short⟩
  · intro manager pool registry id pooled enrolled
    constructor
    · intro routed
      exact ExtensionManager.settled_of_routed R pooled enrolled
        (routed _ (.sorted _) .absent "" [] (Or.inl rfl))
    · intro settled send order instance' method payload gone
      rw [ExtensionManager.invoke_unserved R send gone]
      exact (ExtensionManager.route_pooled R send pooled).routed
        (fun _ => ExtensionManager.mem_routeNodes_settled enrolled settled)
        (manager.nodup_routeNodes enrolled order id) (manager.ranked_routeNodes enrolled order id)
  · intro manager send order instance' id method payload origin
    exact manager.invoke_forwarded R send order instance' id method payload origin
  · intro manager send order instance' request
    exact Causes.handle_sends_nothing send manager order instance' request

section Echo
open Transparent

/-- The member's register, advertising an extension. -/
def echoRegister (state : MemberState) : MemberRegister :=
  { MemberRegister.new (nodeIdText member.nodeId) "127.0.0.1:2" 1 1 with
    state := state, annotations := (∅ : StringMap).insert "ext.echo" "1.0.0" }

/-- The registry of the two nodes. -/
def echoRegistry : AuthorizationRegistry :=
  (AuthorizationRegistry.new cluster).replay primitives [.merge [founding, admission]]

/-- A pool without links. -/
def echoPool : OverlayPool := ⟨some echoRegistry, [], []⟩

/-- The founder's manager, with the member in `state`. -/
def echoManager (state : MemberState) : ExtensionManager :=
  ⟨founder.nodeId, Membership.new.store (echoRegister state) 1, some echoPool⟩

theorem echo_get {state : MemberState} {node : String} {register : MemberRegister}
    (found : (echoManager state).membership.get node = some register) : register = echoRegister state := by
  have stored := (KeyedMap.get?_insert (KeyedMap.empty) (echoRegister state) node).symm.trans found
  split at stored
  · exact (Option.some.inj stored).symm
  · simp at stored

theorem echo_advertises (state : MemberState) :
    (echoManager state).Advertises echoRegistry "echo" state member.nodeId := by
  have other : member.nodeId ≠ founder.nodeId := by decide +kernel
  refine ⟨other, ⟨admission, by decide +kernel⟩, echoRegister state, ?_, rfl, ?_⟩
  · exact KeyedMap.get?_insert_self _ _
  · simp [echoRegister, extensionAnnotationPrefix]

theorem echo_state {state other : MemberState} {node : NodeId}
    (advertises : (echoManager state).Advertises echoRegistry "echo" other node) : other = state := by
  obtain ⟨_, _, register, found, held, _⟩ := advertises
  rw [echo_get found] at held
  exact held.symm

/-- The request that the founder sends for a call with the payload of an empty object. -/
def echoRequest : ExtensionInvokeRequest := ⟨"echo", "run", [123, 125], nodeIdText founder.nodeId⟩

theorem echo_asked (state : MemberState) (counted : state.isActive = true) :
    (member.nodeId, echoRequest) ∈ ((echoManager state).invoke ⟨id, id, id⟩ (fun _ _ => .empty)
      (.sorted _) .absent "echo" "run" [123, 125] none).2 :=
  ExtensionManager.asked_of_empty _ rfl
    ((ExtensionManager.mem_routeNodes rfl).mpr ⟨state, counted, echo_advertises state⟩)

/-- With the member active the call reaches it by the rules, and it makes the one hop. -/
theorem invocation_routing_echo :
    let calls : List (NodeId × Call) := [(founder.nodeId, ⟨"echo", "run", [123, 125], none⟩),
      (member.nodeId, ⟨"echo", "run", [123, 125], some (nodeIdText founder.nodeId)⟩)]
    (echoManager .active).Routed (fun _ _ => .empty) echoPool echoRegistry "echo" "run" [123, 125]
        ((echoManager .active).invoke ⟨id, id, id⟩ (fun _ _ => .empty) (.sorted _) .absent "echo" "run"
          [123, 125] none) ∧
      calls.IsChain (Causes ⟨id, id, id⟩ fun _ => none) ∧ calls.length ≤ 2 := by
  intro calls
  have rules := invocation_routing ⟨id, id, id⟩ fun _ => none
  have settled : ∀ node, ¬ (echoManager .active).Advertises echoRegistry "echo" .suspected node := by
    intro node suspected
    cases echo_state suspected
  have accepted : OverlayExtensionRequestHandler.accept (fun _ => none) echoRequest =
      .ok ⟨"echo", "run", [123, 125], some (nodeIdText founder.nodeId)⟩ := by decide +kernel
  have hop : Causes ⟨id, id, id⟩ (fun _ => none)
      ((echoManager .active).localNode, ⟨"echo", "run", [123, 125], none⟩)
      (member.nodeId, ⟨"echo", "run", [123, 125], some (nodeIdText founder.nodeId)⟩) :=
    .hop (echo_asked .active rfl) accepted
  have chain : calls.IsChain (Causes ⟨id, id, id⟩ fun _ => none) := .cons_cons hop (.singleton _)
  exact ⟨(rules.1 _ echoPool echoRegistry "echo" rfl rfl).mpr settled _ _ _ _ _ (Or.inl rfl), chain,
    (rules.2.2.2 calls chain).1⟩

/-- A suspected member is asked although no active member advertises the extension. -/
theorem suspected_member_asked :
    (∀ node, ¬ (echoManager .suspected).Advertises echoRegistry "echo" .active node) ∧
      (member.nodeId, echoRequest) ∈ ((echoManager .suspected).invoke ⟨id, id, id⟩ (fun _ _ => .empty)
        (.sorted _) .absent "echo" "run" [123, 125] none).2 ∧
      ¬ (echoManager .suspected).Routed (fun _ _ => .empty) echoPool echoRegistry "echo" "run" [123, 125]
        ((echoManager .suspected).invoke ⟨id, id, id⟩ (fun _ _ => .empty) (.sorted _) .absent "echo" "run"
          [123, 125] none) := by
  refine ⟨?_, echo_asked .suspected rfl, ?_⟩
  · intro node active
    cases echo_state active
  · intro routed
    exact ExtensionManager.settled_of_routed _ rfl rfl routed member.nodeId (echo_advertises .suspected)

end Echo

end Lycoris.Daemon
