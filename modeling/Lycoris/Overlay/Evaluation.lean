import Lycoris.Overlay.Queries

/-!
The registry's queries without a bound (`overlay/src/authorization/registry.rs`). A derivation of
these relations is a finished run of the source: its loops turn as often as they turn, and
`record_is_effective` and `identity_record_is_effective` call each other as deep as they do. On every
registry built by insertions each query has one, and it returns what the bounded model returns.
-/

namespace Lycoris.Overlay
open Lib

namespace AuthorizationRegistry

variable {g : AuthorizationRegistry} {r : AuthorizationRecord} {b : Bool}

/-! ### The runs -/

/-- `action_path_contains`. -/
inductive PathContains (g : AuthorizationRegistry) (identity target : RecordId) : Bool → Prop
  | here (same : identity = target) : PathContains g identity target true
  | walked {b : Bool} (differ : identity ≠ target)
      (walk : Ends (fun current turn => g.actionPathTurn identity target current = turn) identity b) :
      PathContains g identity target b

/-- The last conjunct of `record_is_effective`. -/
inductive Retires (g : AuthorizationRegistry) (r : AuthorizationRecord) : Bool → Prop
  | nothing (none : r.retires = none) : Retires g r true
  | chain {retired : RetiredAuthorization} {b : Bool} (named : r.retires = some retired)
      (path : PathContains g retired.identity r.id b) : Retires g r b

/-- The rest of a turn of `identity_record_is_effective`, once it knows whether `current` is
effective. -/
def identityAfter (g : AuthorizationRegistry) (identity current : AuthorizationRecord) :
    Bool → Turn AuthorizationRecord Bool
  | false => .done false
  | true =>
    if current.id = identity.id then .done true
    else match g.children current.id with
      | [next] => .next next
      | _ => .done false

mutual

/-- `record_is_effective`. -/
inductive RecordRuns (g : AuthorizationRegistry) : AuthorizationRecord → Bool → Prop
  | unsigned {r : AuthorizationRecord} {b : Bool} (none : r.authorizer = none)
      (retires : Retires g r b) : RecordRuns g r b
  | offPath {r : AuthorizationRecord} {id : RecordId} (named : r.authorizer = some id)
      (path : PathContains g id r.id false) : RecordRuns g r false
  | missing {r : AuthorizationRecord} {id : RecordId} (named : r.authorizer = some id)
      (path : PathContains g id r.id true) (unknown : g.records.get? id = none) : RecordRuns g r false
  | untrusted {r identity : AuthorizationRecord} {id : RecordId} (named : r.authorizer = some id)
      (path : PathContains g id r.id true) (found : g.records.get? id = some identity)
      (refused : IdentityRuns g identity false) : RecordRuns g r false
  | trusted {r identity : AuthorizationRecord} {id : RecordId} {b : Bool}
      (named : r.authorizer = some id) (path : PathContains g id r.id true)
      (found : g.records.get? id = some identity) (accepted : IdentityRuns g identity true)
      (retires : Retires g r b) : RecordRuns g r b

/-- `identity_record_is_effective`. -/
inductive IdentityRuns (g : AuthorizationRegistry) : AuthorizationRecord → Bool → Prop
  | inactive {identity : AuthorizationRecord} (state : identity.state ≠ .active) :
      IdentityRuns g identity false
  | forked {identity : AuthorizationRecord} (state : identity.state = .active)
      (several : ∀ root, g.roots identity.nodeId ≠ [root]) : IdentityRuns g identity false
  | lineage {identity root : AuthorizationRecord} {b : Bool} (state : identity.state = .active)
      (only : g.roots identity.nodeId = [root]) (walk : WalkRuns g identity root b) :
      IdentityRuns g identity b

/-- The loop of `identity_record_is_effective`, standing at a record of the lineage. -/
inductive WalkRuns (g : AuthorizationRegistry) : AuthorizationRecord → AuthorizationRecord → Bool → Prop
  | done {identity current : AuthorizationRecord} {effective b : Bool}
      (asked : RecordRuns g current effective)
      (last : g.identityAfter identity current effective = .done b) : WalkRuns g identity current b
  | next {identity current child : AuthorizationRecord} {effective b : Bool}
      (asked : RecordRuns g current effective)
      (step : g.identityAfter identity current effective = .next child)
      (rest : WalkRuns g identity child b) : WalkRuns g identity current b

end

/-- The rest of a turn of `status`, once it knows whether `current` is effective. -/
def statusAfter (g : AuthorizationRegistry) (current : AuthorizationRecord) :
    Bool → Turn AuthorizationRecord AuthorizationStatus
  | false => .done (.conflicted [current.id])
  | true =>
    match g.children current.id with
    | [] =>
      match current.state with
      | .active => .done (.active current)
      | .revoked => .done (.revoked current)
    | [next] => .next next
    | conflicts => .done (.conflicted (ids conflicts))

/-- `status`. -/
inductive StatusRuns (g : AuthorizationRegistry) (n : NodeId) : AuthorizationStatus → Prop
  | unknown (none : g.roots n = []) : StatusRuns g n .unknown
  | lineage {root : AuthorizationRecord} {status : AuthorizationStatus} (only : g.roots n = [root])
      (walk : Ends (fun current turn => ∃ b, RecordRuns g current b ∧ g.statusAfter current b = turn)
        root status) : StatusRuns g n status
  | forked (some : g.roots n ≠ []) (several : ∀ root, g.roots n ≠ [root]) :
      StatusRuns g n (.conflicted (ids (g.roots n)))

/-- The scan of `node_for_peer` over the records that are left, with the nodes it collects. -/
inductive ScanRuns (g : AuthorizationRegistry) (peerId : Bytes) :
    List AuthorizationRecord → List NodeId → Prop
  | nil : ScanRuns g peerId [] []
  | matching {record active : AuthorizationRecord} {rest : List AuthorizationRecord} {nodes : List NodeId}
      (asked : StatusRuns g record.nodeId (.active active)) (same : active.peerId = peerId)
      (scan : ScanRuns g peerId rest nodes) : ScanRuns g peerId (record :: rest) (active.nodeId :: nodes)
  | other {record active : AuthorizationRecord} {rest : List AuthorizationRecord} {nodes : List NodeId}
      (asked : StatusRuns g record.nodeId (.active active)) (differ : active.peerId ≠ peerId)
      (scan : ScanRuns g peerId rest nodes) : ScanRuns g peerId (record :: rest) nodes
  | inactive {record : AuthorizationRecord} {status : AuthorizationStatus}
      {rest : List AuthorizationRecord} {nodes : List NodeId}
      (asked : StatusRuns g record.nodeId status) (inactive : ∀ active, status ≠ .active active)
      (scan : ScanRuns g peerId rest nodes) : ScanRuns g peerId (record :: rest) nodes

/-- `node_for_peer`. -/
inductive NodeForPeerRuns (P : Primitives) (g : AuthorizationRegistry) (peer : P.PeerId) :
    Option NodeId → Prop
  | sole {nodes : List NodeId} {n : NodeId} (scan : ScanRuns g (P.peerIdToBytes peer) g.records.vals nodes)
      (only : nodes.dedup = [n]) : NodeForPeerRuns P g peer (some n)
  | none {nodes : List NodeId} (scan : ScanRuns g (P.peerIdToBytes peer) g.records.vals nodes)
      (several : ∀ n, nodes.dedup ≠ [n]) : NodeForPeerRuns P g peer none

/-- `authorizer_head`. -/
inductive HeadRuns (g : AuthorizationRegistry) (identity : AuthorizationRecord) :
    Except AuthorizationError AuthorizationRecord → Prop
  | unknown {error : AuthorizationError} (missing : g.record identity.id = .error error) :
      HeadRuns g identity (.error error)
  | walked {start : AuthorizationRecord} {result : Except AuthorizationError AuthorizationRecord}
      (found : g.record identity.id = .ok start)
      (walk : Ends (fun current turn => g.headTurn identity.id current = turn) start result) :
      HeadRuns g identity result

/-! ### Bounded runs that return -/

theorem pathContains_of {identity target : RecordId}
    (answer : g.actionPathContains? identity target = some b) : PathContains g identity target b := by
  unfold actionPathContains? at answer
  split at answer
  · rename_i same
    cases answer
    exact .here same
  · rename_i differ
    apply PathContains.walked differ
    refine Ends.of_loop ?_ answer
    intro current turn taken
    exact Option.some.inj taken

theorem retires_of (answer : g.retiresOnUniqueChain? r = some b) : Retires g r b := by
  unfold retiresOnUniqueChain? at answer
  split at answer
  · rename_i retired named
    exact .chain named (pathContains_of answer)
  · rename_i none
    cases answer
    exact .nothing none

theorem identityTurn_eq (effective : AuthorizationRecord → Option Bool)
    (identity current : AuthorizationRecord) :
    g.identityTurn effective identity current =
      (effective current).map (g.identityAfter identity current) := by
  unfold identityTurn identityAfter
  cases effective current with
  | none => rfl
  | some asked =>
    cases asked with
    | false => rfl
    | true =>
      rw [Option.map_some]
      dsimp only
      by_cases reached : current.id = identity.id
      · rw [if_pos reached, if_pos reached]
      · rw [if_neg reached, if_neg reached]
        rcases g.children current.id with _ | ⟨child, _ | ⟨second, rest⟩⟩
        · rfl
        · rfl
        · rfl

theorem statusTurn_eq (current : AuthorizationRecord) :
    g.statusTurn current = (g.recordIsEffective? current).map (g.statusAfter current) := by
  unfold statusTurn statusAfter
  cases g.recordIsEffective? current with
  | none => rfl
  | some asked =>
    cases asked with
    | false => rfl
    | true =>
      rw [Option.map_some]
      dsimp only
      rcases g.children current.id with _ | ⟨child, _ | ⟨second, rest⟩⟩
      · cases current.state with
        | active => rfl
        | revoked => rfl
      · rfl
      · rfl

section Recursion

variable {effective : AuthorizationRecord → Option Bool}
  (sound : ∀ r b, effective r = some b → RecordRuns g r b)
include sound

theorem walkRuns_of {identity current : AuthorizationRecord} {fuel : Nat}
    (answer : loop (g.identityTurn effective identity) fuel current = some b) :
    WalkRuns g identity current b := by
  have run : Ends (fun current turn =>
      ∃ asked, RecordRuns g current asked ∧ g.identityAfter identity current asked = turn) current b := by
    refine Ends.of_loop ?_ answer
    intro current turn taken
    rw [identityTurn_eq] at taken
    obtain ⟨asked, found, after⟩ := Option.map_eq_some_iff.mp taken
    exact ⟨asked, sound current asked found, after⟩
  clear answer
  induction run with
  | done last =>
    obtain ⟨_, asked, after⟩ := last
    exact .done asked after
  | next step _ ih =>
    obtain ⟨_, asked, after⟩ := step
    exact .next asked after ih

theorem identityRuns_of {identity : AuthorizationRecord}
    (answer : g.identityRecordIsEffective? effective identity = some b) :
    IdentityRuns g identity b := by
  unfold identityRecordIsEffective? at answer
  split at answer
  · rename_i inactive
    cases answer
    exact .inactive inactive
  · rename_i active
    split at answer
    · rename_i root only
      exact .lineage (not_not.mp active) only (walkRuns_of sound answer)
    · rename_i several
      cases answer
      exact .forked (not_not.mp active) several

end Recursion

theorem recordRuns_of_effectiveAt {depth : Nat} (answer : g.effectiveAt depth r = some b) :
    RecordRuns g r b := by
  induction depth generalizing r b with
  | zero => cases answer
  | succ depth ih =>
    have sound : ∀ r b, g.effectiveAt depth r = some b → RecordRuns g r b := fun _ _ => ih
    unfold effectiveAt signedOnUniqueChain? at answer
    cases named : r.authorizer with
    | none =>
      simp only [named] at answer
      exact .unsigned named (retires_of answer)
    | some id =>
      simp only [named] at answer
      cases path : g.actionPathContains? id r.id with
      | none => simp [path] at answer
      | some onPath =>
        have walked := pathContains_of path
        cases onPath with
        | false =>
          simp only [path] at answer
          cases answer
          exact .offPath named walked
        | true =>
          simp only [path] at answer
          cases found : g.records.get? id with
          | none =>
            simp only [found] at answer
            cases answer
            exact .missing named walked found
          | some identity =>
            simp only [found] at answer
            cases trusted : g.identityRecordIsEffective? (g.effectiveAt depth) identity with
            | none => simp [trusted] at answer
            | some accepted =>
              have asked := identityRuns_of sound trusted
              simp only [trusted] at answer
              cases accepted with
              | false =>
                cases answer
                exact .untrusted named walked found asked
              | true => exact .trusted named walked found asked (retires_of answer)

theorem statusRuns_of {n : NodeId} {status : AuthorizationStatus} (answer : g.status? n = some status) :
    StatusRuns g n status := by
  unfold status? at answer
  split at answer
  · rename_i none
    cases answer
    exact .unknown none
  · rename_i root only
    apply StatusRuns.lineage only
    refine Ends.of_loop ?_ answer
    intro current turn taken
    rw [statusTurn_eq] at taken
    obtain ⟨asked, found, after⟩ := Option.map_eq_some_iff.mp taken
    exact ⟨asked, recordRuns_of_effectiveAt found, after⟩
  · rename_i some several
    cases answer
    exact .forked some several

theorem headRuns_of {identity : AuthorizationRecord}
    {result : Except AuthorizationError AuthorizationRecord}
    (answer : g.authorizerHead? identity = some result) : HeadRuns g identity result := by
  unfold authorizerHead? at answer
  split at answer
  · rename_i error missing
    cases answer
    exact .unknown missing
  · rename_i start found
    apply HeadRuns.walked found
    refine Ends.of_loop ?_ answer
    intro current turn taken
    exact Option.some.inj taken

/-! ### Every query ends -/

section Total

variable {P : Primitives} (wf : WellFormed P g)
include wf

theorem recordRuns (present : r ∈ g) : RecordRuns g r (g.recordIsEffective r) := by
  obtain ⟨b, answer, _⟩ := recordIsEffective?_spec wf present
  rw [recordIsEffective, answer, Option.getD_some]
  exact recordRuns_of_effectiveAt answer

theorem statusRuns (n : NodeId) : StatusRuns g n (g.status n) := by
  obtain ⟨status, answer, _⟩ := status?_spec wf n
  rw [AuthorizationRegistry.status, answer, Option.getD_some]
  exact statusRuns_of answer

theorem headRuns (identity : AuthorizationRecord) : HeadRuns g identity (g.authorizerHead identity) := by
  obtain ⟨result, answer, _⟩ := authorizerHead?_spec wf identity
  rw [authorizerHead, answer, Option.getD_some]
  exact headRuns_of answer

theorem scanRuns (peer : P.PeerId) (records : List AuthorizationRecord) :
    ScanRuns g (P.peerIdToBytes peer) records (records.filterMap fun record =>
      match g.status record.nodeId with
      | .active active => if active.peerId = P.peerIdToBytes peer then some active.nodeId else none
      | _ => none) := by
  induction records with
  | nil => exact .nil
  | cons record rest ih =>
    have asked := statusRuns wf record.nodeId
    rw [List.filterMap_cons]
    cases answer : g.status record.nodeId with
    | active active =>
      rw [answer] at asked
      dsimp only
      by_cases same : active.peerId = P.peerIdToBytes peer
      · rw [if_pos same]
        exact .matching asked same ih
      · rw [if_neg same]
        exact .other asked same ih
    | unknown => exact .inactive asked (by simp [answer]) ih
    | revoked last => exact .inactive asked (by simp [answer]) ih
    | conflicted several => exact .inactive asked (by simp [answer]) ih

theorem nodeForPeerRuns (peer : P.PeerId) : NodeForPeerRuns P g peer (g.nodeForPeer P peer) := by
  have scan := scanRuns wf peer g.records.vals
  unfold nodeForPeer
  split
  · rename_i n only
    exact .sole scan only
  · rename_i several
    exact .none scan several

end Total

/-- On every registry built by insertions and merges of any records, refused ones included, each
query comes to an end, with the answer of the bounded model. -/
theorem queries_terminate (P : Primitives) (cluster : ClusterId) (calls : List RegistryCall) :
    let g := (new cluster).replay P calls
    (∀ n, StatusRuns g n (g.status n)) ∧
      (∀ peer, NodeForPeerRuns P g peer (g.nodeForPeer P peer)) ∧
      (∀ identity, HeadRuns g identity (g.authorizerHead identity)) ∧
      ∀ r ∈ g, RecordRuns g r (g.recordIsEffective r) := by
  intro g
  have wf : WellFormed P g := wellFormed_replay cluster calls
  exact ⟨statusRuns wf, nodeForPeerRuns wf, headRuns wf, fun _ => recordRuns wf⟩

end AuthorizationRegistry

end Lycoris.Overlay
