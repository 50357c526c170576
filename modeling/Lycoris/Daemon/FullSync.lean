import Lycoris.Daemon.Convergence

/-!
The full-sync fallback (`full_sync_with_peer` and `serve_sync_nodes` in
`daemon/src/sync/antientropy.rs`) against the Merkle exchange. Snapshots hold active registers only,
so the fallback loses what it would have to say about members that left or went offline.
-/

namespace Lycoris.Daemon
open Lib Cluster

/-! ### The fallback -/

def matchesSelector (metadata selector : StringMap) : Bool :=
  selector.toList.all fun entry =>
    metadata.toList.any fun held => held.1 = entry.1 && held.2 = entry.2

namespace MembershipService

def listNodes (service : MembershipService) (selector : StringMap) (order : HashOrder MemberRegister) :
    List MemberRegister :=
  (service.swim.membership.active order).filter fun register => matchesSelector register.labels selector

def serveSyncNodes (service : MembershipService) (nodes : List ProtoNodeInfo) (env : Circumstances) :
    MembershipService × List ProtoNodeInfo :=
  let merged := service.syncNodes (nodes.map protoToRegister) env
  (merged.1, merged.2.1.map registerToProto)

end MembershipService

/-- The fallback with every RPC answered. -/
def fullSyncWithPeer (service peer : MembershipService) (env peerEnv : Circumstances) :
    MembershipService × MembershipService :=
  let snapshot := (service.listNodes ∅ env.iteration.members).map registerToProto
  let response := peer.serveSyncNodes snapshot peerEnv
  ((service.syncNodes (response.2.map protoToRegister) env).1, response.1)

/-! ### What a snapshot carries -/

/-- What a snapshot shows of a node. -/
def shown (held : Option MemberRegister) : Option MemberRegister := held.filter (·.state.isActive)

/-- An active snapshot as it arrives. -/
def snapshotOf (membership : Membership) (order : HashOrder MemberRegister) : List MemberRegister :=
  ((membership.active order).map registerToProto).map protoToRegister

theorem matchesSelector_empty (metadata : StringMap) : matchesSelector metadata ∅ = true := by
  have nothing : (∅ : StringMap).toList = [] := rfl
  rw [matchesSelector, nothing]
  rfl

theorem listNodes_all (service : MembershipService) (order : HashOrder MemberRegister) :
    service.listNodes ∅ order = service.swim.membership.active order :=
  List.filter_eq_self.mpr fun register _ => matchesSelector_empty register.labels

theorem mem_snapshotOf {membership : Membership} (stamped : Stamped membership)
    {order : HashOrder MemberRegister} {register : MemberRegister} :
    register ∈ snapshotOf membership order ↔
      ∃ held, shown (membership.get register.nodeId) = some held ∧
        register = { held with updatedAtMs := 0 } := by
  simp only [snapshotOf, Membership.active, List.mem_map, List.mem_filter, KeyedMap.mem_iter]
  constructor
  · rintro ⟨info, ⟨held, ⟨member, active⟩, sent⟩, arrived⟩
    have found : membership.get held.nodeId = some held := KeyedMap.mem_iff.mp member
    rw [← sent, protoToRegister_registerToProto (stamped _ held found)] at arrived
    subst arrived
    refine ⟨held, ?_, rfl⟩
    rw [found, shown, Option.filter_some, if_pos active]
  · rintro ⟨held, visible, arrived⟩
    obtain ⟨found, active⟩ := Option.filter_eq_some_iff.mp visible
    have named := Membership.nodeId_of_get found
    refine ⟨registerToProto held, ⟨held, ⟨?_, active⟩, rfl⟩, ?_⟩
    · exact KeyedMap.mem_of_get? found
    · rw [protoToRegister_registerToProto (stamped _ held found), arrived]

section Exchange

variable {blake3 : Bytes → Hash} {service peer : MembershipService}

theorem snapshotOf_stamped {membership : Membership} (stamped : Stamped membership)
    (order : HashOrder MemberRegister) :
    ∀ register ∈ snapshotOf membership order, 1 ≤ register.incarnation.toNat := by
  intro register member
  obtain ⟨held, visible, arrived⟩ := (mem_snapshotOf stamped).mp member
  rw [arrived]
  exact stamped _ held (Option.filter_eq_some_iff.mp visible).1

theorem get_syncSnapshot (kept : service.Kept blake3) {membership : Membership}
    (stamped : Stamped membership) (order : HashOrder MemberRegister) (env : Circumstances)
    {nodeId : String} (other : nodeId ≠ service.localNodeId) :
    (service.syncNodes (snapshotOf membership order) env).1.swim.membership.get nodeId =
      received env.nowMs (service.swim.membership.get nodeId) (shown (membership.get nodeId)) := by
  apply get_syncNodes kept (snapshotOf_stamped stamped order) env other
  intro register
  rw [mem_snapshotOf stamped]
  constructor
  · rintro ⟨⟨held, visible, arrived⟩, rfl⟩
    exact ⟨held, visible, arrived⟩
  · rintro ⟨held, visible, arrived⟩
    obtain rfl := Membership.nodeId_of_get (Option.filter_eq_some_iff.mp visible).1
    subst arrived
    exact ⟨⟨held, visible, rfl⟩, rfl⟩

/-- The peer merges what the snapshot shows, and the answer shows the result. -/
theorem fullSyncWithPeer_get (kept : service.Kept blake3) (kept' : peer.Kept blake3)
    (env peerEnv : Circumstances) {nodeId : String} (other : nodeId ≠ service.localNodeId)
    (other' : nodeId ≠ peer.localNodeId) :
    let after := fullSyncWithPeer service peer env peerEnv
    let mine := service.swim.membership.get nodeId
    let theirs := received peerEnv.nowMs (peer.swim.membership.get nodeId) (shown mine)
    after.1.swim.membership.get nodeId = received env.nowMs mine (shown theirs) ∧
      after.2.swim.membership.get nodeId = theirs := by
  intro after mine theirs
  have stamped := snapshotOf_stamped kept.stamped env.iteration.members
  have merged := kept'.syncNodes_fold stamped peerEnv.nowMs []
  have peerView := get_syncSnapshot kept' kept.stamped env.iteration.members peerEnv other'
  have sent : snapshotOf service.swim.membership env.iteration.members =
      ((service.listNodes ∅ env.iteration.members).map registerToProto).map protoToRegister := by
    rw [listNodes_all]
    rfl
  have answered : (peer.syncNodes (snapshotOf service.swim.membership env.iteration.members)
      peerEnv).1.swim.membership.get nodeId =
      ((snapshotOf service.swim.membership env.iteration.members).foldl
        (MembershipService.syncNode peerEnv.nowMs) (peer, [])).1.swim.membership.get nodeId := by
    show (MembershipService.persistLocalIncarnation _ _).swim.membership.get nodeId = _
    rw [MembershipService.persist_swim]
  constructor
  · have back := get_syncSnapshot kept merged.stamped peerEnv.iteration.members env other
    rw [← answered, peerView] at back
    rw [sent] at back
    exact back
  · rw [sent] at peerView
    exact peerView

/-! ### What the Merkle exchange moves -/

/-- The two sides have different hashes for a node, in leaf buckets with different strings. -/
def Exchanged (blake3 : Bytes → Hash) (service peer : MembershipService) (nodeId : String) : Prop :=
  bucketBytes ((treeOf blake3 service).buckets (leafIndex blake3 nodeId)) ≠
      bucketBytes ((treeOf blake3 peer).buckets (leafIndex blake3 nodeId)) ∧
    (service.swim.membership.get nodeId).map (hashRegister blake3) ≠
      (peer.swim.membership.get nodeId).map (hashRegister blake3)

/-- The Merkle exchange merges each way what it moves, and leaves the rest alone. -/
theorem syncWithPeer_exact (kept : service.Kept blake3) (kept' : peer.Kept blake3)
    (free : CollisionFree blake3 (treeOf blake3 service) (treeOf blake3 peer))
    (env peerEnv : Circumstances) {nodeId : String} (other : nodeId ≠ service.localNodeId)
    (other' : nodeId ≠ peer.localNodeId) :
    let after := syncWithPeer blake3 service peer env peerEnv
    let mine := service.swim.membership.get nodeId
    let theirs := peer.swim.membership.get nodeId
    (Exchanged blake3 service peer nodeId →
      after.1.swim.membership.get nodeId = received env.nowMs mine theirs ∧
        after.2.swim.membership.get nodeId = received peerEnv.nowMs theirs mine) ∧
    (¬ Exchanged blake3 service peer nodeId →
      after.1.swim.membership.get nodeId = mine ∧ after.2.swim.membership.get nodeId = theirs) := by
  intro after mine theirs
  have pair : Traced blake3 (treeOf blake3 service) (treeOf blake3 peer) := .of_memberships free
  have pull : nodeId ∈ (merkleDiff blake3 (treeOf blake3 service) (treeOf blake3 peer)).needFromRemote ↔
      Exchanged blake3 service peer nodeId ∧ theirs ≠ none := by
    rw [pair.mem_needFromRemote]
    refine exists_uneven_iff.trans ?_
    rw [onlyHeld_iff, Exchanged]
    constructor
    · rintro ⟨strings, present, hashes⟩
      exact ⟨⟨Ne.symm strings, Ne.symm hashes⟩, present⟩
    · rintro ⟨⟨strings, hashes⟩, present⟩
      exact ⟨Ne.symm strings, present, Ne.symm hashes⟩
  have push : nodeId ∈ (merkleDiff blake3 (treeOf blake3 service) (treeOf blake3 peer)).needFromLocal ↔
      Exchanged blake3 service peer nodeId ∧ mine ≠ none := by
    rw [pair.mem_needFromLocal]
    refine exists_uneven_iff.trans ?_
    rw [onlyHeld_iff, Exchanged]
    constructor
    · rintro ⟨strings, present, hashes⟩
      exact ⟨⟨strings, hashes⟩, present⟩
    · rintro ⟨⟨strings, hashes⟩, present⟩
      exact ⟨strings, present, hashes⟩
  have nothing : ∀ {nowMs : Int} {held told : Option MemberRegister},
      ¬ told ≠ none → received nowMs held told = held := by
    intro nowMs held told absent
    rw [not_not.mp absent]
    rfl
  rcases syncWithPeer_get kept kept' env peerEnv other other' with ⟨roots, still, still'⟩ | ⟨here, there⟩
  · have strings := pair.string_of_root roots (leafIndex_lt blake3 nodeId)
    refine ⟨fun moved => absurd strings moved.1, ?_⟩
    intro _
    show (syncWithPeer blake3 service peer env peerEnv).1.swim.membership.get nodeId = _ ∧
      (syncWithPeer blake3 service peer env peerEnv).2.swim.membership.get nodeId = _
    rw [still, still']
    exact ⟨rfl, rfl⟩
  · constructor
    · intro moved
      constructor
      · refine here.trans ?_
        split
        · rfl
        · rename_i unlisted
          exact (nothing fun present => unlisted (pull.mpr ⟨moved, present⟩)).symm
      · refine there.trans ?_
        split
        · rfl
        · rename_i unlisted
          exact (nothing fun present => unlisted (push.mpr ⟨moved, present⟩)).symm
    · intro still
      exact ⟨here.trans (if_neg fun listed => still (pull.mp listed).1),
        there.trans (if_neg fun listed => still (push.mp listed).1)⟩

end Exchange

/-! ### One node in both exchanges -/

abbrev viewed (held : Option MemberRegister) : Option HashedFields := held.map MemberRegister.hashedFields

/-- When the fallback leaves of a node what the Merkle exchange leaves of it. -/
def FallbackSuffices (moved : Prop) (mine theirs : Option MemberRegister) : Prop :=
  match mine, theirs with
  | none, none => True
  | some only, none | none, some only => only.state.isActive ↔ moved
  | some mine, some theirs =>
    match mine.state.isActive, theirs.state.isActive with
    | true, true => moved ∨ mine.hashedFields = theirs.hashedFields
    | true, false => moved ↔ theirs.incarnation < mine.incarnation
    | false, true => moved ↔ mine.incarnation < theirs.incarnation
    | false, false => ¬ moved

/-- What the fallback leaves of a node on the two sides. -/
def fallbackView (nowMs peerNowMs : Int) (mine theirs : Option MemberRegister) :
    Option MemberRegister × Option MemberRegister :=
  let theirs' := received peerNowMs theirs (shown mine)
  (received nowMs mine (shown theirs'), theirs')

section Node

variable {mine theirs : MemberRegister} (nowMs peerNowMs : Int)

theorem shown_some (register : MemberRegister) :
    shown (some register) = if register.state.isActive then some register else none := by
  rw [shown, Option.filter_some]

theorem received_some (register held : MemberRegister) :
    received nowMs (some held) (some register) =
      some (held.merge { register with updatedAtMs := nowMs }) := rfl

/-- A register that only the peer holds. -/
theorem fallbackView_theirs (only : MemberRegister) :
    viewed (fallbackView nowMs peerNowMs none (some only)).1 =
        (if only.state.isActive then some only.hashedFields else none) ∧
      viewed (fallbackView nowMs peerNowMs none (some only)).2 = some only.hashedFields := by
  refine ⟨?_, rfl⟩
  show viewed (received nowMs none (shown (some only))) = _
  rw [shown_some]
  split
  · rfl
  · rfl

/-- A register that the peer does not hold. -/
theorem fallbackView_mine (only : MemberRegister) :
    viewed (fallbackView nowMs peerNowMs (some only) none).1 = some only.hashedFields ∧
      viewed (fallbackView nowMs peerNowMs (some only) none).2 =
        if only.state.isActive then some only.hashedFields else none := by
  rw [fallbackView, shown_some]
  split
  · rename_i active
    refine ⟨?_, rfl⟩
    have taken : received peerNowMs none (some only) = some { only with updatedAtMs := peerNowMs } := rfl
    rw [taken, shown_some, if_pos active, received_some]
    exact congrArg some (hashedFields_merge_same rfl)
  · exact ⟨rfl, rfl⟩

/-- The peer is ahead: it keeps its register, and sends it back while it is active. -/
theorem fallbackView_behind (less : mine.orderKey < theirs.orderKey) :
    viewed (fallbackView nowMs peerNowMs (some mine) (some theirs)).1 =
        some (if theirs.state.isActive then theirs.hashedFields else mine.hashedFields) ∧
      viewed (fallbackView nowMs peerNowMs (some mine) (some theirs)).2 = some theirs.hashedFields := by
  have kept : received peerNowMs (some theirs) (shown (some mine)) = some theirs := by
    rw [shown_some]
    split
    · rw [received_some, MemberRegister.merge_of_dominating]
      exact less
    · rfl
  rw [fallbackView, kept, shown_some]
  refine ⟨?_, rfl⟩
  split
  · rw [received_some, MemberRegister.merge_of_dominated]
    · rfl
    · exact less
  · rfl

/-- The peer is behind: it takes the register while that is active. -/
theorem fallbackView_ahead (greater : theirs.orderKey < mine.orderKey) :
    viewed (fallbackView nowMs peerNowMs (some mine) (some theirs)).1 = some mine.hashedFields ∧
      viewed (fallbackView nowMs peerNowMs (some mine) (some theirs)).2 =
        some (if mine.state.isActive then mine.hashedFields else theirs.hashedFields) := by
  rw [fallbackView, shown_some]
  split
  · rename_i active
    have taken : received peerNowMs (some theirs) (some mine) =
        some { mine with updatedAtMs := peerNowMs } := by
      rw [received_some, MemberRegister.merge_of_dominated]
      exact greater
    refine ⟨?_, by rw [taken]; rfl⟩
    rw [taken, shown_some, if_pos active, received_some]
    exact congrArg some (hashedFields_merge_same rfl)
  · refine ⟨?_, rfl⟩
    show viewed (received nowMs (some mine) (shown (some theirs))) = _
    rw [shown_some]
    split
    · rw [received_some, MemberRegister.merge_of_dominating]
      · rfl
      · exact greater
    · rfl

/-- The order keys tie: active registers are merged on both sides. -/
theorem fallbackView_tied (equal : mine.orderKey = theirs.orderKey) (named : mine.nodeId = theirs.nodeId) :
    if mine.state.isActive then
      viewed (fallbackView nowMs peerNowMs (some mine) (some theirs)).1 =
          some (mine.merge theirs).hashedFields ∧
        viewed (fallbackView nowMs peerNowMs (some mine) (some theirs)).2 =
          some (mine.merge theirs).hashedFields
    else fallbackView nowMs peerNowMs (some mine) (some theirs) = (some mine, some theirs) := by
  have laws := MemberRegister.merge_joins
  have state : mine.state = theirs.state := (MemberRegister.orderKey_inj.mp equal).2.1
  split
  · rename_i active
    let told : MemberRegister := { mine with updatedAtMs := peerNowMs }
    have merged : (theirs.merge told).hashedFields = (mine.merge theirs).hashedFields := by
      rw [hashedFields_merge_clock, laws.comm theirs mine named.symm]
    have still : (theirs.merge told).state.isActive = true := by
      have same : (theirs.merge told).state = theirs.state := by
        rw [MemberRegister.merge_of_equal]
        · rfl
        · exact equal.symm
      rw [same, ← state, active]
    have view : fallbackView nowMs peerNowMs (some mine) (some theirs) =
        (some (mine.merge { theirs.merge told with updatedAtMs := nowMs }), some (theirs.merge told)) := by
      rw [fallbackView, shown_some, if_pos active, received_some, shown_some, if_pos still, received_some]
    have again : (mine.merge (theirs.merge told)).hashedFields = (mine.merge theirs).hashedFields := by
      rw [← laws.assoc mine theirs told named named.symm, hashedFields_merge_clock,
        laws.comm (mine.merge theirs) mine (laws.keeps mine theirs named),
        ← laws.assoc mine mine theirs rfl named, laws.idem]
    rw [view]
    refine ⟨?_, congrArg some merged⟩
    exact congrArg some ((hashedFields_merge_clock _ _ _).trans again)
  · rename_i inactive
    have inactive' : ¬ theirs.state.isActive = true := state ▸ inactive
    rw [fallbackView, shown_some, if_neg inactive]
    show (received nowMs (some mine) (shown (some theirs)), some theirs) = _
    rw [shown_some, if_neg inactive']
    rfl

/-- An inactive register is ahead of an active one of at most its incarnation. -/
theorem orderKey_lt_inactive (active : mine.state.isActive = true)
    (inactive : theirs.state.isActive = false) :
    (mine.orderKey < theirs.orderKey ↔ ¬ theirs.incarnation < mine.incarnation) ∧
      (theirs.orderKey < mine.orderKey ↔ theirs.incarnation < mine.incarnation) := by
  have ranks : mine.state.rank.toNat < theirs.state.rank.toNat := by
    revert active inactive
    cases mine.state <;> cases theirs.state <;> decide
  rw [MemberRegister.orderKey_lt, MemberRegister.orderKey_lt, UInt64.lt_iff_toNat_lt]
  omega

end Node

/-- Both exchanges leave the same view of a node on both sides. -/
def SameViews (moved : Prop) (fallback : Option MemberRegister × Option MemberRegister)
    (mine theirs : Option MemberRegister) : Prop :=
  (moved → viewed fallback.1 = viewed (mergedView mine theirs) ∧
    viewed fallback.2 = viewed (mergedView mine theirs)) ∧
  (¬ moved → viewed fallback.1 = viewed mine ∧ viewed fallback.2 = viewed theirs)

section Both

variable {moved : Prop} {mine theirs : MemberRegister} (nowMs peerNowMs : Int)

theorem fields_ne_of_active (apart : mine.state.isActive ≠ theirs.state.isActive) :
    mine.hashedFields ≠ theirs.hashedFields := by
  intro same
  exact apart (congrArg (fun fields => fields.state.isActive) same)

theorem viewed_merged :
    viewed (mergedView (some mine) (some theirs)) = some (mine.merge theirs).hashedFields := rfl

variable (differ : moved → mine.hashedFields ≠ theirs.hashedFields)
include differ

theorem sameViews_behind (less : mine.orderKey < theirs.orderKey) :
    SameViews moved (fallbackView nowMs peerNowMs (some mine) (some theirs)) (some mine) (some theirs) ↔
      FallbackSuffices moved (some mine) (some theirs) := by
  obtain ⟨here, there⟩ := fallbackView_behind nowMs peerNowMs less
  rw [SameViews, FallbackSuffices, here, there, viewed_merged, MemberRegister.merge_of_dominated less]
  cases active : mine.state.isActive <;> cases active' : theirs.state.isActive
  · simp only [Bool.false_eq_true, if_false, Option.some.injEq, and_true, Option.map_some, and_self,
      implies_true]
    tauto
  · have apart := @fields_ne_of_active mine theirs (by simp [active, active'])
    have ahead := (orderKey_lt_inactive active' active).2.mp less
    simp only [if_true, and_self, implies_true, Option.map_some, Option.some.injEq, and_true, true_and,
      ahead, iff_true]
    tauto
  · have behind := (orderKey_lt_inactive active active').1.mp less
    simp only [Bool.false_eq_true, if_false, Option.some.injEq, and_true, Option.map_some, and_self,
      implies_true, behind, iff_false]
    tauto
  · simp only [if_true, and_self, implies_true, Option.map_some, Option.some.injEq, and_true, true_and]
    tauto

theorem sameViews_ahead (greater : theirs.orderKey < mine.orderKey) :
    SameViews moved (fallbackView nowMs peerNowMs (some mine) (some theirs)) (some mine) (some theirs) ↔
      FallbackSuffices moved (some mine) (some theirs) := by
  obtain ⟨here, there⟩ := fallbackView_ahead nowMs peerNowMs greater
  rw [SameViews, FallbackSuffices, here, there, viewed_merged, MemberRegister.merge_of_dominating greater]
  cases active : mine.state.isActive <;> cases active' : theirs.state.isActive
  · simp only [Bool.false_eq_true, if_false, Option.some.injEq, true_and, Option.map_some, and_self,
      implies_true, and_true]
    tauto
  · have behind := (orderKey_lt_inactive active' active).1.mp greater
    simp only [Bool.false_eq_true, if_false, Option.some.injEq, true_and, Option.map_some, and_self,
      implies_true, and_true, behind, iff_false]
    tauto
  · have apart := @fields_ne_of_active mine theirs (by simp [active, active'])
    have ahead := (orderKey_lt_inactive active active').2.mp greater
    simp only [if_true, and_self, implies_true, Option.map_some, Option.some.injEq, true_and, ahead,
      iff_true]
    tauto
  · simp only [if_true, and_self, implies_true, Option.map_some, Option.some.injEq, true_and]
    tauto

theorem sameViews_tied (equal : mine.orderKey = theirs.orderKey) (named : mine.nodeId = theirs.nodeId) :
    SameViews moved (fallbackView nowMs peerNowMs (some mine) (some theirs)) (some mine) (some theirs) ↔
      FallbackSuffices moved (some mine) (some theirs) := by
  have tied := fallbackView_tied nowMs peerNowMs equal named
  have state : mine.state = theirs.state := (MemberRegister.orderKey_inj.mp equal).2.1
  rw [SameViews, FallbackSuffices, viewed_merged, ← state]
  cases active : mine.state.isActive
  · rw [active, if_neg (by decide)] at tied
    rw [tied]
    constructor
    · rintro ⟨both, _⟩ moves
      obtain ⟨first, second⟩ := both moves
      exact differ moves (Option.some.inj (first.trans second.symm))
    · intro still
      exact ⟨fun moves => absurd moves still, fun _ => ⟨rfl, rfl⟩⟩
  · rw [active, if_pos rfl] at tied
    rw [tied.1, tied.2]
    constructor
    · rintro ⟨_, neither⟩
      by_cases moves : moved
      · exact .inl moves
      · obtain ⟨first, second⟩ := neither moves
        exact .inr (Option.some.inj (first.symm.trans second))
    · intro either
      refine ⟨fun _ => ⟨rfl, rfl⟩, ?_⟩
      intro still
      have same := either.resolve_left still
      have merged := hashedFields_merge_same same
      exact ⟨congrArg some merged, congrArg some (merged.trans same)⟩

end Both

/-- The fallback agrees on a node under exactly this condition. -/
theorem sameViews_iff {moved : Prop} {mine theirs : Option MemberRegister} (nowMs peerNowMs : Int)
    (named : ∀ register register', mine = some register → theirs = some register' →
      register.nodeId = register'.nodeId)
    (differ : moved → viewed mine ≠ viewed theirs) :
    SameViews moved (fallbackView nowMs peerNowMs mine theirs) mine theirs ↔
      FallbackSuffices moved mine theirs := by
  cases mine with
  | none =>
    cases theirs with
    | none => exact iff_of_true ⟨fun _ => ⟨rfl, rfl⟩, fun _ => ⟨rfl, rfl⟩⟩ trivial
    | some only =>
      obtain ⟨here, there⟩ := fallbackView_theirs nowMs peerNowMs only
      rw [SameViews, FallbackSuffices, here, there]
      cases active : only.state.isActive
      · simp [mergedView]
      · simp [mergedView]
  | some only =>
    cases theirs with
    | none =>
      obtain ⟨here, there⟩ := fallbackView_mine nowMs peerNowMs only
      rw [SameViews, FallbackSuffices, here, there]
      cases active : only.state.isActive
      · simp [mergedView]
      · simp [mergedView]
    | some register =>
      have same := named only register rfl rfl
      have apart : moved → only.hashedFields ≠ register.hashedFields := by
        intro moves equal
        exact differ moves (congrArg some equal)
      rcases lt_trichotomy only.orderKey register.orderKey with less | equal | greater
      · exact sameViews_behind nowMs peerNowMs apart less
      · exact sameViews_tied nowMs peerNowMs apart equal same
      · exact sameViews_ahead nowMs peerNowMs apart greater

/-! ### The whole view -/

section View

variable {blake3 : Bytes → Hash} {service peer : MembershipService}

theorem viewed_ne_of_exchanged {nodeId : String} (moved : Exchanged blake3 service peer nodeId) :
    viewed (service.swim.membership.get nodeId) ≠ viewed (peer.swim.membership.get nodeId) := by
  intro same
  apply moved.2
  cases here : service.swim.membership.get nodeId with
  | none =>
    rw [here] at same
    rw [Option.map_eq_none_iff.mp same.symm]
  | some register =>
    rw [here] at same
    obtain ⟨held, found, fields⟩ := Option.map_eq_some_iff.mp same.symm
    rw [found]
    exact congrArg some (hashRegister_congr blake3 fields.symm)

/-- Among two running services the fallback leaves every third node as the Merkle exchange leaves it
exactly when it suffices on each. -/
theorem fullSync_agrees_iff (running : service.Running blake3) (running' : peer.Running blake3)
    (free : CollisionFree blake3 (treeOf blake3 service) (treeOf blake3 peer))
    (env peerEnv env' peerEnv' : Circumstances) :
    let full := fullSyncWithPeer service peer env peerEnv
    let merkle := syncWithPeer blake3 service peer env' peerEnv'
    (∀ nodeId, nodeId ≠ service.localNodeId → nodeId ≠ peer.localNodeId →
      viewed (full.1.swim.membership.get nodeId) = viewed (merkle.1.swim.membership.get nodeId) ∧
        viewed (full.2.swim.membership.get nodeId) = viewed (merkle.2.swim.membership.get nodeId)) ↔
    ∀ nodeId, nodeId ≠ service.localNodeId → nodeId ≠ peer.localNodeId →
      FallbackSuffices (Exchanged blake3 service peer nodeId) (service.swim.membership.get nodeId)
        (peer.swim.membership.get nodeId) := by
  intro full merkle
  refine forall_congr' fun nodeId => forall_congr' fun other => forall_congr' fun other' => ?_
  obtain ⟨fullMine, fullTheirs⟩ :=
    fullSyncWithPeer_get running.kept running'.kept env peerEnv other other'
  obtain ⟨moves, stays⟩ :=
    syncWithPeer_exact running.kept running'.kept free env' peerEnv' other other'
  have named : ∀ register register', service.swim.membership.get nodeId = some register →
      peer.swim.membership.get nodeId = some register' → register.nodeId = register'.nodeId := by
    intro register register' found found'
    exact (Membership.nodeId_of_get found).trans (Membership.nodeId_of_get found').symm
  rw [← sameViews_iff env.nowMs peerEnv.nowMs named viewed_ne_of_exchanged, fullMine, fullTheirs]
  by_cases moved : Exchanged blake3 service peer nodeId
  · obtain ⟨mine, theirs⟩ := moves moved
    have merged := hashed_received env'.nowMs (service.swim.membership.get nodeId)
      (peer.swim.membership.get nodeId)
    have merged' := hashed_received peerEnv'.nowMs (peer.swim.membership.get nodeId)
      (service.swim.membership.get nodeId)
    rw [← mergedView_comm nodeId] at merged'
    rw [mine, theirs, viewed, viewed, viewed, viewed, merged, merged']
    constructor
    · intro agree
      exact ⟨fun _ => agree, fun still => absurd moved still⟩
    · intro agree
      exact agree.1 moved
  · obtain ⟨mine, theirs⟩ := stays moved
    rw [mine, theirs]
    constructor
    · intro agree
      exact ⟨fun moves => absurd moves moved, fun _ => agree⟩
    · intro agree
      exact agree.2 moved

/-- Of an active third node under two addresses both exchanges make the same. -/
theorem sample_fullSync_agrees :
    let full := fullSyncWithPeer sampleHere sampleThere sampleEnv sampleEnv
    let merkle := syncWithPeer sampleBlake3 sampleHere sampleThere sampleEnv sampleEnv
    viewed (full.1.swim.membership.get "third") = viewed (merkle.1.swim.membership.get "third") ∧
      viewed (full.2.swim.membership.get "third") = viewed (merkle.2.swim.membership.get "third") := by
  have agree := (fullSync_agrees_iff (sampleService_running "first" "127.0.0.1:3" 1)
    (sampleService_running "second" "127.0.0.1:4" 2) sample_collisionFree sampleEnv sampleEnv sampleEnv
    sampleEnv).mpr ?_
  · exact agree "third" (show "third" ≠ "first" by decide) (show "third" ≠ "second" by decide)
  · intro nodeId other other'
    have notFirst : "first" ≠ nodeId := Ne.symm other
    have notSecond : "second" ≠ nodeId := Ne.symm other'
    show FallbackSuffices (Exchanged sampleBlake3 sampleHere sampleThere nodeId)
      (sampleHere.swim.membership.get nodeId) (sampleThere.swim.membership.get nodeId)
    rw [Exchanged, treeOf, treeOf, sampleHere_membership, sampleThere_membership, sampleFirst, sampleSecond,
      get_sampleMembership rfl (by decide), get_sampleMembership rfl (by decide),
      if_neg notFirst, if_neg notSecond]
    split
    · rename_i third
      refine .inl ⟨?_, by decide +kernel⟩
      have inFirst : leafIndex sampleBlake3 nodeId = 0 := by
        rw [← third]
        decide +kernel
      rw [inFirst, sampleMembership_buckets rfl (by decide) (by decide +kernel),
        sampleMembership_buckets rfl (by decide) (by decide +kernel)]
      decide +kernel
    · trivial

end View

/-! ### A member that went offline -/

/-- A service that heard that a third node went offline, and one that last heard of it before. -/
def sampleGone : MembershipService :=
  (MembershipService.boot sampleBlake3 "first" "127.0.0.1:1" 0 ∅ ∅ ∅ sampleEnv).step sampleBlake3
    sampleEnv (.register (protoToRegister ⟨"third", "127.0.0.1:3", ∅, ∅, 0, 3, 2, 0⟩))

def sampleStale : MembershipService := sampleService "second" "127.0.0.1:3" 1

def goneThird : MemberRegister :=
  { sampleThird "127.0.0.1:3" 2 with state := .offline }

theorem sampleGone_membership : sampleGone.swim.membership = sampleMembership "first" goneThird :=
  told_membership (by decide) rfl

theorem sampleStale_membership :
    sampleStale.swim.membership = sampleMembership "second" (sampleThird "127.0.0.1:3" 1) :=
  told_membership (by decide) rfl

theorem sampleGone_running : sampleGone.Running sampleBlake3 := by
  apply MembershipService.Running.step (.boot ..)
  intro register member
  rw [ServiceCall.registers, List.mem_singleton] at member
  exact ⟨_, member⟩

theorem gone_collisionFree :
    CollisionFree sampleBlake3 (treeOf sampleBlake3 sampleGone) (treeOf sampleBlake3 sampleStale) := by
  rw [treeOf, treeOf, sampleGone_membership, sampleStale_membership]
  have builds : BuildsFree sampleBlake3 (sampleMembership "first" goneThird)
      (sampleMembership "second" (sampleThird "127.0.0.1:3" 1)) (.sorted _) (.sorted _) :=
    sampleMembership_buildsFree rfl (by decide) (by decide +kernel) rfl (by decide)
      (by decide +kernel) _ _ rfl (by decide) (by decide +kernel)
  refine Set.InjOn.mono ?_ builds
  intro bytes hashed
  exact hashed.imp .inl .inl

theorem sampleStale_running : sampleStale.Running sampleBlake3 := sampleService_running _ _ _

theorem get_sampleGone : sampleGone.swim.membership.get "third" = some goneThird := by
  rw [sampleGone_membership]
  exact get_sampleMembership rfl (by decide) _

theorem get_sampleStale :
    sampleStale.swim.membership.get "third" = some (sampleThird "127.0.0.1:3" 1) := by
  rw [sampleStale_membership]
  exact get_sampleMembership rfl (by decide) _

theorem gone_exchanged : Exchanged sampleBlake3 sampleGone sampleStale "third" := by
  have inFirst : leafIndex sampleBlake3 "third" = 0 := by decide +kernel
  rw [Exchanged, get_sampleGone, get_sampleStale, treeOf, treeOf, sampleGone_membership,
    sampleStale_membership, inFirst, sampleMembership_buckets rfl (by decide) (by decide +kernel),
    sampleMembership_buckets rfl (by decide) (by decide +kernel)]
  exact ⟨by decide +kernel, by decide +kernel⟩

theorem gone_other : "third" ≠ sampleGone.localNodeId := show "third" ≠ "first" by decide

theorem stale_other : "third" ≠ sampleStale.localNodeId := show "third" ≠ "second" by decide

theorem fallback_keeps_stale :
    (fullSyncWithPeer sampleGone sampleStale sampleEnv sampleEnv).2.swim.membership.get "third" =
      some (sampleThird "127.0.0.1:3" 1) := by
  have fallback := (fullSyncWithPeer_get sampleGone_running.kept sampleStale_running.kept sampleEnv
    sampleEnv gone_other stale_other).2
  rw [get_sampleGone, get_sampleStale, shown_some, if_neg (by decide)] at fallback
  exact fallback

theorem merkle_tells_gone :
    (syncWithPeer sampleBlake3 sampleGone sampleStale sampleEnv sampleEnv).2.swim.membership.get "third" =
      some { goneThird with updatedAtMs := sampleEnv.nowMs } := by
  have less : (sampleThird "127.0.0.1:3" 1).orderKey <
      ({ goneThird with updatedAtMs := sampleEnv.nowMs } : MemberRegister).orderKey := by decide
  have exchange := ((syncWithPeer_exact sampleGone_running.kept sampleStale_running.kept
    gone_collisionFree sampleEnv sampleEnv gone_other stale_other).1 gone_exchanged).2
  rw [get_sampleGone, get_sampleStale, received_some, MemberRegister.merge_of_dominated less] at exchange
  exact exchange

/-- The fallback leaves the peer with the stale register, the Merkle exchange tells it. -/
theorem offline_member_lost :
    sampleGone.Running sampleBlake3 ∧ sampleStale.Running sampleBlake3 ∧
      CollisionFree sampleBlake3 (treeOf sampleBlake3 sampleGone) (treeOf sampleBlake3 sampleStale) ∧
      viewed ((fullSyncWithPeer sampleGone sampleStale sampleEnv sampleEnv).2.swim.membership.get "third") ≠
        viewed ((syncWithPeer sampleBlake3 sampleGone sampleStale sampleEnv
          sampleEnv).2.swim.membership.get "third") := by
  refine ⟨sampleGone_running, sampleStale_running, gone_collisionFree, ?_⟩
  rw [fallback_keeps_stale, merkle_tells_gone]
  intro same
  have states := congrArg (Option.map HashedFields.state) same
  cases states

end Lycoris.Daemon
