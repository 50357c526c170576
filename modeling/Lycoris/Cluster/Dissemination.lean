import Lycoris.Cluster.Forward

/-!
When the order of two rumors about a remote node matters. A `Suspect` and a `Leave` carry no register:
the receiver builds one from what it holds, so what it ends with can depend on what came first. Pairs in
which a newer suspicion meets a member that is leaving or offline are left to `Suspicion.lean`.
-/

namespace Lycoris.Cluster
open Lib

/-! ### Rumors on a register -/

def MemberRegister.metadata (register : MemberRegister) : String × StringMap × StringMap :=
  (register.address, register.labels, register.annotations)

/-- What a `Suspect` makes of the register held. -/
def suspectedAt (incarnation : UInt64) (nowMs : Int) (existing : MemberRegister) : MemberRegister :=
  if existing.incarnation > incarnation then existing
  else existing.merge (({ existing with incarnation := incarnation } : MemberRegister).suspect nowMs)

/-- What a `Leave` makes of the register held. -/
def leavingAt (incarnation : UInt64) (nowMs : Int) (existing : MemberRegister) : MemberRegister :=
  if existing.incarnation > incarnation then existing
  else existing.merge (({ existing with incarnation := incarnation } : MemberRegister).leave nowMs)

/-- The remote node a message is about. -/
def SwimMessage.about : SwimMessage → Option String
  | .suspect nodeId _ => some nodeId
  | .alive register => some register.nodeId
  | .leave nodeId _ => some nodeId
  | _ => none

def SwimMessage.apply (message : SwimMessage) (nowMs : Int) (existing : MemberRegister) :
    MemberRegister :=
  match message with
  | .suspect _ incarnation => suspectedAt incarnation nowMs existing
  | .alive register => existing.merge register
  | .leave _ incarnation => leavingAt incarnation nowMs existing
  | _ => existing

theorem Swim.get_onMessage {swim : Swim} {nodeId : String} (remote : nodeId ≠ swim.localNodeId)
    {existing : MemberRegister} (found : swim.membership.get nodeId = some existing)
    {message : SwimMessage} (about : message.about = some nodeId) (sender : String) (nowMs : Int) :
    (swim.onMessage sender message nowMs).1.membership.get nodeId = some (message.apply nowMs existing) ∧
      (swim.onMessage sender message nowMs).1.localNodeId = swim.localNodeId := by
  have named := Membership.nodeId_of_get found
  cases message with
  | ping seq => cases about
  | ack seq => cases about
  | suspect told incarnation =>
    obtain rfl := Option.some.inj about
    show (swim.handleSuspectState told incarnation nowMs).1.membership.get told =
      some (suspectedAt incarnation nowMs existing) ∧
        (swim.handleSuspectState told incarnation nowMs).1.localNodeId = swim.localNodeId
    rw [handleSuspectState, if_neg remote, found, suspectedAt]
    dsimp only
    split
    · exact ⟨found, rfl⟩
    · refine ⟨Membership.get_mergeRegister_known ?_ found, rfl⟩
      rw [Membership.nodeId_suspect]
      exact named
  | alive register =>
    obtain rfl := Option.some.inj about
    show (swim.handleAliveState register nowMs).1.membership.get register.nodeId =
      some (existing.merge register) ∧
        (swim.handleAliveState register nowMs).1.localNodeId = swim.localNodeId
    rw [handleAliveState, if_neg remote]
    exact ⟨Membership.get_mergeRegister_known rfl found, rfl⟩
  | leave told incarnation =>
    obtain rfl := Option.some.inj about
    show (swim.handleLeaveState told incarnation nowMs).membership.get told =
      some (leavingAt incarnation nowMs existing) ∧
        (swim.handleLeaveState told incarnation nowMs).localNodeId = swim.localNodeId
    rw [handleLeaveState, if_neg remote, found, leavingAt]
    dsimp only
    split
    · exact ⟨found, rfl⟩
    · exact ⟨Membership.get_mergeRegister_known named found, rfl⟩

/-! ### Fields and keys -/

namespace MemberState

theorem rank_active {state : MemberState} : state.rank.toNat = 0 ↔ state = .active := by
  cases state <;> decide

theorem rank_offline {state : MemberState} : state.rank.toNat = 3 ↔ state = .offline := by
  cases state <;> decide

/-- A suspicion changes only an active member. -/
def suspected' (state : MemberState) : MemberState := if state = .active then .suspected else state

theorem rank_suspected' (state : MemberState) : 1 ≤ state.suspected'.rank.toNat := by
  cases state <;> decide

end MemberState

namespace MemberRegister

theorem hashedFields_eq {a b : MemberRegister} (named : a.nodeId = b.nodeId) :
    a.hashedFields = b.hashedFields ↔
      a.incarnation = b.incarnation ∧ a.state = b.state ∧ a.metadata = b.metadata := by
  simp only [hashedFields, HashedFields.mk.injEq, metadata, Prod.mk.injEq, named]
  tauto

theorem orderKey_parts {a b : MemberRegister} (equal : a.orderKey = b.orderKey) :
    a.incarnation = b.incarnation ∧ a.state = b.state :=
  ⟨(orderKey_inj.mp equal).1, (orderKey_inj.mp equal).2.1⟩

end MemberRegister

section Rumors

variable (incarnation : UInt64) (nowMs : Int) (existing : MemberRegister)

/-- An older suspicion is ignored; else it takes the incarnation over, and suspects an active member. -/
theorem suspectedAt_eq :
    suspectedAt incarnation nowMs existing =
      if existing.incarnation > incarnation then existing
      else if existing.state = .active then
        { existing with
          incarnation := incarnation
          state := .suspected
          heartbeat := saturatingSucc existing.heartbeat
          updatedAtMs := nowMs }
      else { existing with incarnation := incarnation } := by
  unfold suspectedAt MemberRegister.suspect
  dsimp only
  split
  · rfl
  · rename_i current
    have newer := UInt64.le_iff_toNat_le.mp (UInt64.not_lt.mp current)
    split
    · rename_i active
      apply MemberRegister.merge_of_dominated
      rw [MemberRegister.orderKey_lt, active]
      have ranks : MemberState.active.rank.toNat < MemberState.suspected.rank.toNat := by decide
      dsimp only
      omega
    · rcases Nat.lt_or_eq_of_le newer with later | same
      · apply MemberRegister.merge_of_dominated
        rw [MemberRegister.orderKey_lt]
        exact .inl later
      · obtain rfl := UInt64.toNat_inj.mp same
        exact MemberRegister.merge_joins.idem existing

theorem suspectedAt_cases :
    (suspectedAt incarnation nowMs existing = existing ∧
      incarnation.toNat < existing.incarnation.toNat) ∨
    (existing.incarnation.toNat ≤ incarnation.toNat ∧
      (suspectedAt incarnation nowMs existing).incarnation = incarnation ∧
      (suspectedAt incarnation nowMs existing).state = existing.state.suspected') := by
  rw [suspectedAt_eq, MemberState.suspected']
  split
  · rename_i older
    exact .inl ⟨rfl, UInt64.lt_iff_toNat_lt.mp older⟩
  · rename_i current
    refine .inr ⟨UInt64.le_iff_toNat_le.mp (UInt64.not_lt.mp current), ?_⟩
    split
    · exact ⟨rfl, rfl⟩
    · exact ⟨rfl, rfl⟩

/-- A leave older than the register, or of an offline member in its incarnation. -/
def LeaveIgnored : Prop :=
  incarnation.toNat < existing.incarnation.toNat ∨
    incarnation.toNat = existing.incarnation.toNat ∧ existing.state = .offline

/-- A leave that is not ignored is taken over. -/
theorem leavingAt_cases :
    (LeaveIgnored incarnation existing ∧ leavingAt incarnation nowMs existing = existing) ∨
    (¬ LeaveIgnored incarnation existing ∧
      (leavingAt incarnation nowMs existing).nodeId = existing.nodeId ∧
      (leavingAt incarnation nowMs existing).incarnation = incarnation ∧
      (leavingAt incarnation nowMs existing).state = .leaving ∧
      (leavingAt incarnation nowMs existing).heartbeat = saturatingSucc existing.heartbeat ∧
      (leavingAt incarnation nowMs existing).metadata = existing.metadata) := by
  let left := ({ existing with incarnation := incarnation } : MemberRegister).leave nowMs
  have beat := saturatingSucc_toNat existing.heartbeat
  unfold leavingAt
  split
  · rename_i older
    exact .inl ⟨.inl (UInt64.lt_iff_toNat_lt.mp older), rfl⟩
  · rename_i current
    have newer := UInt64.le_iff_toNat_le.mp (UInt64.not_lt.mp current)
    have keys : existing.orderKey < left.orderKey ↔
        existing.incarnation.toNat < incarnation.toNat ∨
          existing.incarnation.toNat = incarnation.toNat ∧ (existing.state.rank.toNat < 2 ∨
            existing.state.rank.toNat = 2 ∧
              existing.heartbeat.toNat < (saturatingSucc existing.heartbeat).toNat) :=
      MemberRegister.orderKey_lt
    rcases lt_trichotomy existing.orderKey left.orderKey with less | equal | greater
    · right
      rw [MemberRegister.merge_of_dominated less]
      refine ⟨?_, rfl, rfl, rfl, rfl, rfl⟩
      intro ignored
      have below := keys.mp less
      rcases ignored with older | ⟨same, offline⟩
      · omega
      · have three := MemberState.rank_offline.mpr offline
        omega
    · -- A leaving member whose heartbeat cannot rise any more.
      right
      obtain ⟨incarnations, states, heartbeats⟩ := MemberRegister.orderKey_inj.mp equal
      have metadata : existing.mergeMetadata left = { existing with
          updatedAtMs := larger id existing.updatedAtMs nowMs } := by
        rw [MemberRegister.mergeMetadata_eq]
        simp only [left, MemberRegister.leave, larger_self]
      rw [MemberRegister.merge_of_equal equal, metadata]
      refine ⟨?_, rfl, incarnations, states, heartbeats, rfl⟩
      intro ignored
      rcases ignored with older | ⟨_, offline⟩
      · omega
      · cases states.symm.trans offline
    · left
      rw [MemberRegister.merge_of_dominating greater]
      refine ⟨.inr ?_, rfl⟩
      have above : incarnation.toNat < existing.incarnation.toNat ∨
          incarnation.toNat = existing.incarnation.toNat ∧ (2 < existing.state.rank.toNat ∨
            2 = existing.state.rank.toNat ∧
              (saturatingSucc existing.heartbeat).toNat < existing.heartbeat.toNat) :=
        MemberRegister.orderKey_lt.mp greater
      have top := existing.state.rank_le_offline
      have bound := existing.heartbeat.toNat_lt
      have three : MemberState.offline.rank.toNat = 3 := rfl
      rw [three] at top
      refine ⟨by omega, MemberState.rank_offline.mp (by omega)⟩

end Rumors

/-! ### A rumor and a register -/

/-- What a `Suspect` and a `Leave` have in common: the metadata stays, the order key rises with the key
alone, a rumor that a larger register covers adds nothing to it, and one that passes a register leaves
its own incarnation and state there. -/
structure RumorLaw (apply : MemberRegister → MemberRegister) (after : MemberState → MemberState) :
    Prop where
  named : ∀ existing, (apply existing).nodeId = existing.nodeId
  metadata : ∀ existing, (apply existing).metadata = existing.metadata
  rises : ∀ existing, existing.orderKey ≤ (apply existing).orderKey
  congr : ∀ {first second : MemberRegister}, first.orderKey = second.orderKey →
    (apply first).orderKey = (apply second).orderKey
  settled : ∀ {existing told : MemberRegister}, existing.orderKey < told.orderKey →
    (apply existing).orderKey ≤ told.orderKey →
    (apply told).incarnation = told.incarnation ∧ (apply told).state = told.state
  passes : ∀ {existing told : MemberRegister}, existing.orderKey < told.orderKey →
    told.orderKey < (apply existing).orderKey →
    (apply existing).incarnation = (apply told).incarnation ∧
      (apply existing).state = after existing.state ∧ (apply told).state = after told.state

theorem suspectedAt_law (incarnation : UInt64) (nowMs : Int) :
    RumorLaw (suspectedAt incarnation nowMs) MemberState.suspected' where
  named existing := by
    rw [suspectedAt_eq]
    split
    · rfl
    · split <;> rfl
  metadata existing := by
    rw [suspectedAt_eq]
    split
    · rfl
    · split <;> rfl
  rises existing := by
    unfold suspectedAt
    split
    · exact le_refl _
    · exact existing.orderKey_le_merge _
  congr same := by
    obtain ⟨incarnations, states, heartbeats⟩ := MemberRegister.orderKey_inj.mp same
    rw [MemberRegister.orderKey_inj, suspectedAt_eq, suspectedAt_eq, incarnations, states, heartbeats]
    split
    · exact ⟨incarnations, states, heartbeats⟩
    · split
      · exact ⟨rfl, rfl, rfl⟩
      · exact ⟨rfl, rfl, rfl⟩
  settled {existing told} less covered := by
    rcases suspectedAt_cases incarnation nowMs told with ⟨same, _⟩ | ⟨newer, incarnations, states⟩
    · rw [same]
      exact ⟨rfl, rfl⟩
    · have below := MemberRegister.orderKey_lt.mp less
      rcases suspectedAt_cases incarnation nowMs existing with ⟨_, older⟩ | ⟨_, incarnations', states'⟩
      · omega
      · have notPassed := mt MemberRegister.orderKey_lt.mpr (not_lt.mpr covered)
        rw [incarnations', states'] at notPassed
        have raised := existing.state.rank_suspected'
        have equal : incarnation.toNat = told.incarnation.toNat := by omega
        refine ⟨incarnations.trans (UInt64.toNat_inj.mp equal), states.trans ?_⟩
        have inactive : told.state ≠ .active := by
          intro active
          have zero := MemberState.rank_active.mpr active
          omega
        exact if_neg inactive
  passes {existing told} less passed := by
    have above := MemberRegister.orderKey_lt.mp passed
    rcases suspectedAt_cases incarnation nowMs existing with ⟨same, _⟩ | ⟨_, incarnations, states⟩
    · rw [same] at passed
      exact absurd passed (lt_asymm less)
    · rw [incarnations] at above
      rcases suspectedAt_cases incarnation nowMs told with ⟨_, older⟩ | ⟨_, incarnations', states'⟩
      · omega
      · exact ⟨incarnations.trans incarnations'.symm, states, states'⟩

theorem leavingAt_law (incarnation : UInt64) (nowMs : Int) :
    RumorLaw (leavingAt incarnation nowMs) fun _ => .leaving where
  named existing := by
    rcases leavingAt_cases incarnation nowMs existing with ⟨_, same⟩ | ⟨_, named, _⟩
    · rw [same]
    · exact named
  metadata existing := by
    rcases leavingAt_cases incarnation nowMs existing with ⟨_, same⟩ | ⟨_, _, _, _, _, metadata⟩
    · rw [same]
    · exact metadata
  rises existing := by
    unfold leavingAt
    split
    · exact le_refl _
    · exact existing.orderKey_le_merge _
  congr {first second} same := by
    obtain ⟨incarnations, states, heartbeats⟩ := MemberRegister.orderKey_inj.mp same
    have alike : LeaveIgnored incarnation first ↔ LeaveIgnored incarnation second := by
      rw [LeaveIgnored, LeaveIgnored, incarnations, states]
    rw [MemberRegister.orderKey_inj]
    rcases leavingAt_cases incarnation nowMs first with
      ⟨ignored, kept⟩ | ⟨taken, _, inc, state, heartbeat, _⟩
    · rcases leavingAt_cases incarnation nowMs second with ⟨_, kept'⟩ | ⟨taken', _⟩
      · rw [kept, kept']
        exact ⟨incarnations, states, heartbeats⟩
      · exact absurd (alike.mp ignored) taken'
    · rcases leavingAt_cases incarnation nowMs second with
        ⟨ignored', _⟩ | ⟨_, _, inc', state', heartbeat', _⟩
      · exact absurd (alike.mpr ignored') taken
      · refine ⟨inc.trans inc'.symm, state.trans state'.symm, ?_⟩
        rw [heartbeat, heartbeat', heartbeats]
  settled {existing told} less covered := by
    rcases leavingAt_cases incarnation nowMs told with ⟨_, same⟩ | ⟨taken, _, inc, state, _⟩
    · rw [same]
      exact ⟨rfl, rfl⟩
    · have below := MemberRegister.orderKey_lt.mp less
      have top := told.state.rank_le_offline
      have three : MemberState.offline.rank.toNat = 3 := rfl
      have online : incarnation.toNat = told.incarnation.toNat → told.state.rank.toNat ≠ 3 :=
        fun equal rank => taken (.inr ⟨equal, MemberState.rank_offline.mp rank⟩)
      have current : ¬ incarnation.toNat < told.incarnation.toNat := fun older => taken (.inl older)
      rcases leavingAt_cases incarnation nowMs existing with ⟨ignored, _⟩ | ⟨_, _, inc', state', _⟩
      · exfalso
        rcases ignored with older | ⟨equal, offline⟩
        · omega
        · have rank := MemberState.rank_offline.mpr offline
          omega
      · have notPassed := mt MemberRegister.orderKey_lt.mpr (not_lt.mpr covered)
        have two : MemberState.leaving.rank.toNat = 2 := rfl
        rw [inc', state', two] at notPassed
        have equal : incarnation.toNat = told.incarnation.toNat := by omega
        refine ⟨inc.trans (UInt64.toNat_inj.mp equal), state.trans ?_⟩
        apply MemberState.rank_injective
        show MemberState.leaving.rank.toNat = told.state.rank.toNat
        have rank := online equal
        omega
  passes {existing told} less passed := by
    have above := MemberRegister.orderKey_lt.mp passed
    rcases leavingAt_cases incarnation nowMs existing with ⟨_, same⟩ | ⟨_, _, inc, state, _⟩
    · rw [same] at passed
      exact absurd passed (lt_asymm less)
    · have two : MemberState.leaving.rank.toNat = 2 := rfl
      rw [inc, state, two] at above
      rcases leavingAt_cases incarnation nowMs told with ⟨ignored, _⟩ | ⟨_, _, inc', state', _⟩
      · exfalso
        rcases ignored with older | ⟨equal, offline⟩
        · omega
        · have rank := MemberState.rank_offline.mpr offline
          omega
      · exact ⟨inc.trans inc'.symm, state, state'⟩

/-- When a rumor and a register in an `Alive` can be heard in either order. `rumored` is what the rumor
alone makes of the register held. -/
def AliveOrderFree (after : MemberState → MemberState) (rumored existing told : MemberRegister) : Prop :=
  told.orderKey < existing.orderKey ∨
  (told.orderKey = existing.orderKey ∧
    (rumored.orderKey = existing.orderKey ∨ (existing.merge told).metadata = existing.metadata)) ∨
  (existing.orderKey < told.orderKey ∧
    (rumored.orderKey < told.orderKey ∨
      (rumored.orderKey = told.orderKey ∧ (rumored.merge told).metadata = told.metadata) ∨
      (told.orderKey < rumored.orderKey ∧ existing.metadata = told.metadata ∧
        after existing.state = after told.state)))

namespace MemberRegister

theorem nodeId_merge {self other : MemberRegister} (named : self.nodeId = other.nodeId) :
    (self.merge other).nodeId = self.nodeId :=
  merge_joins.keeps self other named

theorem metadata_merge_congr {first second told : MemberRegister}
    (keys : first.orderKey = told.orderKey) (keys' : second.orderKey = told.orderKey)
    (same : first.metadata = second.metadata) :
    (first.merge told).metadata = (second.merge told).metadata := by
  obtain ⟨address, rest⟩ := Prod.mk.inj same
  obtain ⟨labels, annotations⟩ := Prod.mk.inj rest
  rw [merge_of_equal keys, merge_of_equal keys', mergeMetadata_eq, mergeMetadata_eq, metadata, metadata,
    address, labels, annotations]

end MemberRegister

section Alive

variable {apply : MemberRegister → MemberRegister} {after : MemberState → MemberState}
  (law : RumorLaw apply after) {existing told : MemberRegister} (named : existing.nodeId = told.nodeId)
include law named

theorem alive_order_tied (tied : told.orderKey = existing.orderKey) :
    ((apply existing).merge told).incarnation = (apply (existing.merge told)).incarnation ∧
      (((apply existing).merge told).hashedFields = (apply (existing.merge told)).hashedFields ↔
        (apply existing).orderKey = existing.orderKey ∨
          (existing.merge told).metadata = existing.metadata) := by
  have merged : (existing.merge told).orderKey = existing.orderKey := by
    rw [MemberRegister.merge_of_equal tied.symm]
    rfl
  have rumored := MemberRegister.orderKey_parts (law.congr merged)
  have named' : ((apply existing).merge told).nodeId = (apply (existing.merge told)).nodeId := by
    rw [law.named, MemberRegister.nodeId_merge named,
      MemberRegister.nodeId_merge ((law.named existing).trans named), law.named]
  rw [MemberRegister.hashedFields_eq named', law.metadata]
  rcases (law.rises existing).lt_or_eq with raised | same
  · rw [MemberRegister.merge_of_dominating (tied.trans_lt raised), law.metadata]
    refine ⟨rumored.1.symm, ?_⟩
    constructor
    · rintro ⟨_, _, metadata⟩
      exact .inr metadata.symm
    · intro either
      exact ⟨rumored.1.symm, rumored.2.symm, (either.resolve_left raised.ne').symm⟩
  · have keys : (apply existing).orderKey = told.orderKey := same.symm.trans tied.symm
    have fields : ((apply existing).merge told).orderKey = (apply existing).orderKey := by
      rw [MemberRegister.merge_of_equal keys]
      rfl
    have parts := MemberRegister.orderKey_parts fields
    have metadata := MemberRegister.metadata_merge_congr keys tied.symm (law.metadata existing)
    refine ⟨parts.1.trans rumored.1.symm, ?_⟩
    constructor
    · intro _
      exact .inl same.symm
    · intro _
      exact ⟨parts.1.trans rumored.1.symm, parts.2.trans rumored.2.symm, metadata⟩

theorem alive_order_newer (newer : existing.orderKey < told.orderKey) :
    ((apply existing).merge told).incarnation = (apply (existing.merge told)).incarnation ∧
      (((apply existing).merge told).hashedFields = (apply (existing.merge told)).hashedFields ↔
        (apply existing).orderKey < told.orderKey ∨
        ((apply existing).orderKey = told.orderKey ∧
          ((apply existing).merge told).metadata = told.metadata) ∨
        (told.orderKey < (apply existing).orderKey ∧ existing.metadata = told.metadata ∧
          after existing.state = after told.state)) := by
  have named' : ((apply existing).merge told).nodeId = (apply told).nodeId := by
    rw [law.named, MemberRegister.nodeId_merge ((law.named existing).trans named), law.named, named]
  rw [MemberRegister.merge_of_dominated newer, MemberRegister.hashedFields_eq named', law.metadata]
  rcases lt_trichotomy (apply existing).orderKey told.orderKey with covered | equal | passed
  · obtain ⟨incarnation, state⟩ := law.settled newer covered.le
    rw [MemberRegister.merge_of_dominated covered]
    exact ⟨incarnation.symm, iff_of_true ⟨incarnation.symm, state.symm, rfl⟩ (.inl covered)⟩
  · obtain ⟨incarnation, state⟩ := law.settled newer equal.le
    have fields : ((apply existing).merge told).orderKey = told.orderKey := by
      rw [MemberRegister.merge_of_equal equal]
      exact equal
    have parts := MemberRegister.orderKey_parts fields
    refine ⟨parts.1.trans incarnation.symm, ?_⟩
    constructor
    · rintro ⟨_, _, metadata⟩
      exact .inr (.inl ⟨equal, metadata⟩)
    · intro either
      rcases either with less | ⟨_, metadata⟩ | ⟨greater, _⟩
      · exact absurd equal less.ne
      · exact ⟨parts.1.trans incarnation.symm, parts.2.trans state.symm, metadata⟩
      · exact absurd equal greater.ne'
  · obtain ⟨incarnation, state, state'⟩ := law.passes newer passed
    rw [MemberRegister.merge_of_dominating passed, law.metadata, state, state']
    refine ⟨incarnation, ?_⟩
    constructor
    · rintro ⟨_, states, metadata⟩
      exact .inr (.inr ⟨passed, metadata, states⟩)
    · intro either
      rcases either with less | ⟨equal, _⟩ | ⟨_, metadata, states⟩
      · exact absurd less (lt_asymm passed)
      · exact absurd equal passed.ne'
      · exact ⟨incarnation, states, metadata⟩

/-- A rumor and a register in either order: the incarnations always agree, the rest exactly when the
order is free. -/
theorem alive_order :
    ((apply existing).merge told).incarnation = (apply (existing.merge told)).incarnation ∧
      (((apply existing).merge told).hashedFields = (apply (existing.merge told)).hashedFields ↔
        AliveOrderFree after (apply existing) existing told) := by
  unfold AliveOrderFree
  rcases lt_trichotomy told.orderKey existing.orderKey with older | tied | newer
  · have below := older.trans_le (law.rises existing)
    rw [MemberRegister.merge_of_dominating older, MemberRegister.merge_of_dominating below]
    exact ⟨rfl, iff_of_true rfl (.inl older)⟩
  · obtain ⟨incarnation, free⟩ := alive_order_tied law named tied
    refine ⟨incarnation, free.trans ?_⟩
    simp [tied]
  · obtain ⟨incarnation, free⟩ := alive_order_newer law named newer
    refine ⟨incarnation, free.trans ?_⟩
    simp [newer, newer.ne', lt_asymm newer]

end Alive

/-! ### Two rumors -/

/-- Incarnation and state, all that the other rumors look at. -/
def MemberRegister.standing (register : MemberRegister) : Nat × MemberState :=
  (register.incarnation.toNat, register.state)

def suspectStanding (incarnation : Nat) (held : Nat × MemberState) : Nat × MemberState :=
  (max held.1 incarnation, if incarnation < held.1 then held.2 else held.2.suspected')

def leaveStanding (incarnation : Nat) (held : Nat × MemberState) : Nat × MemberState :=
  (max held.1 incarnation,
    if incarnation < held.1 ∨ incarnation = held.1 ∧ held.2 = .offline then held.2 else .leaving)

section Standings

variable (first second : Nat) (held : Nat × MemberState)

theorem suspectStanding_comm :
    suspectStanding second (suspectStanding first held) =
      suspectStanding first (suspectStanding second held) := by
  simp only [suspectStanding, Prod.mk.injEq, MemberState.suspected']
  grind

theorem leaveStanding_comm :
    leaveStanding second (leaveStanding first held) =
      leaveStanding first (leaveStanding second held) := by
  simp only [leaveStanding, Prod.mk.injEq]
  grind

/-- A suspicion that passes a leave hides it, and so does one that is heard while the member is offline
in a lower incarnation. -/
theorem suspect_leave_standing :
    (leaveStanding second (suspectStanding first held)).1 =
        (suspectStanding first (leaveStanding second held)).1 ∧
      ((leaveStanding second (suspectStanding first held)).2 =
        (suspectStanding first (leaveStanding second held)).2 ↔
        ¬ ((held.2 = .active ∨ held.2 = .suspected) ∧ held.1 ≤ second ∧ second < first) ∧
          ¬ (held.2 = .offline ∧ held.1 < second ∧ second ≤ first)) := by
  obtain ⟨incarnation, state⟩ := held
  simp only [leaveStanding, suspectStanding, MemberState.suspected']
  refine ⟨by omega, ?_⟩
  cases state <;> grind

end Standings

section Pairs

variable (incarnation : UInt64) (nowMs : Int) (existing : MemberRegister)

theorem suspectedAt_standing :
    (suspectedAt incarnation nowMs existing).standing =
      suspectStanding incarnation.toNat existing.standing := by
  rw [MemberRegister.standing, suspectStanding, MemberRegister.standing]
  dsimp only
  rcases suspectedAt_cases incarnation nowMs existing with ⟨same, older⟩ | ⟨newer, taken, state⟩
  · rw [same, if_pos older, max_eq_left older.le]
  · rw [taken, state, if_neg (not_lt.mpr newer), max_eq_right newer]

theorem leavingAt_standing :
    (leavingAt incarnation nowMs existing).standing =
      leaveStanding incarnation.toNat existing.standing := by
  rw [MemberRegister.standing, leaveStanding, MemberRegister.standing]
  dsimp only
  rcases leavingAt_cases incarnation nowMs existing with ⟨ignored, same⟩ | ⟨taken, _, inc, state, _⟩
  · have older : incarnation.toNat ≤ existing.incarnation.toNat := by
      rcases ignored with less | ⟨equal, _⟩
      · exact less.le
      · exact equal.le
    rw [same, if_pos (by exact ignored), max_eq_left older]
  · have newer : existing.incarnation.toNat ≤ incarnation.toNat := by
      by_contra less
      exact taken (.inl (not_le.mp less))
    rw [inc, state, if_neg (by exact taken), max_eq_right newer]

end Pairs

theorem MemberRegister.hashedFields_eq_standing {a b : MemberRegister} (named : a.nodeId = b.nodeId)
    (metadata : a.metadata = b.metadata) :
    a.hashedFields = b.hashedFields ↔ a.standing = b.standing := by
  rw [hashedFields_eq named]
  simp only [metadata, and_true, standing, Prod.mk.injEq, UInt64.toNat_inj]

/-- Two rumors keep the metadata in either order. -/
theorem RumorLaw.frame {apply apply' : MemberRegister → MemberRegister}
    {after after' : MemberState → MemberState} (law : RumorLaw apply after)
    (law' : RumorLaw apply' after') (existing : MemberRegister) :
    (apply' (apply existing)).nodeId = (apply (apply' existing)).nodeId ∧
      (apply' (apply existing)).metadata = (apply (apply' existing)).metadata := by
  rw [law'.named, law.named, law.named, law'.named, law'.metadata, law.metadata, law.metadata,
    law'.metadata]
  exact ⟨rfl, rfl⟩

/-- A `Suspect` and a `Leave` can be heard in either order unless the suspicion passes the leave, or the
leave would raise an offline member no higher than the suspicion. -/
def LeaveOrderFree (suspected left : UInt64) (existing : MemberRegister) : Prop :=
  ¬ ((existing.state = .active ∨ existing.state = .suspected) ∧ existing.incarnation ≤ left ∧
      left < suspected) ∧
    ¬ (existing.state = .offline ∧ existing.incarnation < left ∧ left ≤ suspected)

theorem suspect_leave_order (suspected left : UInt64) (nowMs : Int) (existing : MemberRegister) :
    (leavingAt left nowMs (suspectedAt suspected nowMs existing)).incarnation =
        (suspectedAt suspected nowMs (leavingAt left nowMs existing)).incarnation ∧
      ((leavingAt left nowMs (suspectedAt suspected nowMs existing)).hashedFields =
        (suspectedAt suspected nowMs (leavingAt left nowMs existing)).hashedFields ↔
        LeaveOrderFree suspected left existing) := by
  obtain ⟨named, metadata⟩ :=
    (suspectedAt_law suspected nowMs).frame (leavingAt_law left nowMs) existing
  obtain ⟨incarnations, states⟩ :=
    suspect_leave_standing suspected.toNat left.toNat existing.standing
  have one : (leavingAt left nowMs (suspectedAt suspected nowMs existing)).standing =
      leaveStanding left.toNat (suspectStanding suspected.toNat existing.standing) := by
    rw [leavingAt_standing, suspectedAt_standing]
  have other : (suspectedAt suspected nowMs (leavingAt left nowMs existing)).standing =
      suspectStanding suspected.toNat (leaveStanding left.toNat existing.standing) := by
    rw [suspectedAt_standing, leavingAt_standing]
  constructor
  · apply UInt64.toNat_inj.mp
    exact (congrArg Prod.fst one).trans (incarnations.trans (congrArg Prod.fst other).symm)
  · rw [MemberRegister.hashedFields_eq_standing named metadata, one, other, Prod.ext_iff, states,
      LeaveOrderFree, UInt64.le_iff_toNat_le, UInt64.lt_iff_toNat_lt, UInt64.lt_iff_toNat_lt,
      UInt64.le_iff_toNat_le]
    exact and_iff_right incarnations

/-! ### Messages -/

/-- A suspicion of a later incarnation that meets a leaving or offline member. -/
def SwimMessage.Lifts (held : MemberRegister) : SwimMessage → Prop
  | .suspect _ incarnation => held.state.isActive = false ∧ held.incarnation < incarnation
  | _ => False

/-- Neither message lifts the register it meets, whichever comes first. -/
structure Unlifted (nowMs : Int) (existing : MemberRegister) (first second : SwimMessage) : Prop where
  held : ¬ first.Lifts existing
  held' : ¬ second.Lifts existing
  after_first : ¬ second.Lifts (first.apply nowMs existing)
  after_second : ¬ first.Lifts (second.apply nowMs existing)

theorem Unlifted.symm {nowMs : Int} {existing : MemberRegister} {first second : SwimMessage}
    (unlifted : Unlifted nowMs existing first second) : Unlifted nowMs existing second first :=
  ⟨unlifted.held', unlifted.held, unlifted.after_second, unlifted.after_first⟩

theorem Unlifted.leaveOrderFree {nowMs : Int} {existing : MemberRegister} {told told' : String}
    {suspected left : UInt64}
    (unlifted : Unlifted nowMs existing (.suspect told suspected) (.leave told' left)) :
    LeaveOrderFree suspected left existing := by
  constructor
  · rintro ⟨active, current, passed⟩
    -- The suspicion passes the leave, so it would meet the member leaving.
    rcases leavingAt_cases left nowMs existing with ⟨ignored, _⟩ | ⟨_, _, incarnation, state, _⟩
    · rcases ignored with older | ⟨_, offline⟩
      · exact absurd (UInt64.le_iff_toNat_le.mp current) (not_le.mpr older)
      · rcases active with active | active
        · exact nomatch active.symm.trans offline
        · exact nomatch active.symm.trans offline
    · apply unlifted.after_second
      show (leavingAt left nowMs existing).state.isActive = false ∧
        (leavingAt left nowMs existing).incarnation < suspected
      rw [state, incarnation]
      exact ⟨rfl, passed⟩
  · rintro ⟨offline, newer, reached⟩
    apply unlifted.held
    show existing.state.isActive = false ∧ _
    rw [offline]
    exact ⟨rfl, UInt64.lt_of_lt_of_le newer reached⟩

/-- When two messages about one remote node that lift nothing can be heard in either order. -/
def OrderFree (nowMs : Int) (existing : MemberRegister) : SwimMessage → SwimMessage → Prop
  | .suspect _ suspected, .alive told =>
    AliveOrderFree MemberState.suspected' (suspectedAt suspected nowMs existing) existing told
  | .alive told, .suspect _ suspected =>
    AliveOrderFree MemberState.suspected' (suspectedAt suspected nowMs existing) existing told
  | .leave _ left, .alive told =>
    AliveOrderFree (fun _ => .leaving) (leavingAt left nowMs existing) existing told
  | .alive told, .leave _ left =>
    AliveOrderFree (fun _ => .leaving) (leavingAt left nowMs existing) existing told
  | _, _ => True

/-- Two registers that agree in the incarnation, and in all hashed fields exactly when `free`. -/
def AgreeWhen (free : Prop) (one other : MemberRegister) : Prop :=
  one.incarnation = other.incarnation ∧ (one.hashedFields = other.hashedFields ↔ free)

theorem AgreeWhen.symm {free : Prop} {one other : MemberRegister} (agree : AgreeWhen free one other) :
    AgreeWhen free other one :=
  ⟨agree.1.symm, eq_comm.trans agree.2⟩

theorem AgreeWhen.always {one other : MemberRegister} (same : one.hashedFields = other.hashedFields) :
    AgreeWhen True one other :=
  ⟨congrArg HashedFields.incarnation same, iff_of_true same trivial⟩

theorem SwimMessage.apply_order (nowMs : Int) {existing : MemberRegister} {nodeId : String}
    (named : existing.nodeId = nodeId) {first second : SwimMessage}
    (about : first.about = some nodeId) (about' : second.about = some nodeId)
    (unlifted : Unlifted nowMs existing first second) :
    AgreeWhen (OrderFree nowMs existing first second)
      (second.apply nowMs (first.apply nowMs existing))
      (first.apply nowMs (second.apply nowMs existing)) := by
  cases first with
  | ping seq => cases about
  | ack seq => cases about
  | suspect told suspected =>
    cases second with
    | ping seq => cases about'
    | ack seq => cases about'
    | suspect told' suspected' =>
      obtain ⟨names, metadata⟩ :=
        (suspectedAt_law suspected nowMs).frame (suspectedAt_law suspected' nowMs) existing
      apply AgreeWhen.always
      apply (MemberRegister.hashedFields_eq_standing names metadata).mpr
      rw [suspectedAt_standing, suspectedAt_standing, suspectedAt_standing, suspectedAt_standing]
      exact suspectStanding_comm suspected.toNat suspected'.toNat existing.standing
    | alive register =>
      exact alive_order (suspectedAt_law suspected nowMs) (named.trans (Option.some.inj about').symm)
    | leave told' left =>
      obtain ⟨incarnations, fields⟩ := suspect_leave_order suspected left nowMs existing
      exact ⟨incarnations, iff_of_true (fields.mpr unlifted.leaveOrderFree) trivial⟩
  | alive register =>
    have names := named.trans (Option.some.inj about).symm
    cases second with
    | ping seq => cases about'
    | ack seq => cases about'
    | suspect told' suspected =>
      exact AgreeWhen.symm (alive_order (suspectedAt_law suspected nowMs) names)
    | alive register' =>
      have same : register.nodeId = register'.nodeId :=
        (Option.some.inj about).trans (Option.some.inj about').symm
      have swapped : (existing.merge register).merge register' =
          (existing.merge register').merge register :=
        calc (existing.merge register).merge register'
          _ = existing.merge (register.merge register') :=
            MemberRegister.merge_joins.assoc _ _ _ names same
          _ = existing.merge (register'.merge register) := by
            rw [MemberRegister.merge_joins.comm _ _ same]
          _ = (existing.merge register').merge register :=
            (MemberRegister.merge_joins.assoc _ _ _ (names.trans same) same.symm).symm
      exact AgreeWhen.always (congrArg MemberRegister.hashedFields swapped)
    | leave told' left => exact AgreeWhen.symm (alive_order (leavingAt_law left nowMs) names)
  | leave told left =>
    cases second with
    | ping seq => cases about'
    | ack seq => cases about'
    | suspect told' suspected =>
      obtain ⟨incarnations, fields⟩ := suspect_leave_order suspected left nowMs existing
      exact ⟨incarnations.symm, iff_of_true (fields.mpr unlifted.symm.leaveOrderFree).symm trivial⟩
    | alive register =>
      exact alive_order (leavingAt_law left nowMs) (named.trans (Option.some.inj about').symm)
    | leave told' left' =>
      obtain ⟨names, metadata⟩ :=
        (leavingAt_law left nowMs).frame (leavingAt_law left' nowMs) existing
      apply AgreeWhen.always
      apply (MemberRegister.hashedFields_eq_standing names metadata).mpr
      rw [leavingAt_standing, leavingAt_standing, leavingAt_standing, leavingAt_standing]
      exact leaveStanding_comm left.toNat left'.toNat existing.standing

theorem Swim.get_onMessages {swim : Swim} {nodeId : String} (remote : nodeId ≠ swim.localNodeId)
    {existing : MemberRegister} (found : swim.membership.get nodeId = some existing)
    {first second : SwimMessage} (about : first.about = some nodeId)
    (about' : second.about = some nodeId) (sender sender' : String) (nowMs : Int) :
    ((swim.onMessage sender first nowMs).1.onMessage sender' second nowMs).1.membership.get nodeId =
      some (second.apply nowMs (first.apply nowMs existing)) := by
  obtain ⟨heard, localId⟩ := Swim.get_onMessage remote found about sender nowMs
  exact (Swim.get_onMessage (localId ▸ remote) heard about' sender' nowMs).1

/-- Two rumors about a known remote node that lift nothing, in either order: its incarnation is the same,
and its state and metadata are the same exactly when the order of the two is free. -/
theorem Swim.rumor_order (swim : Swim) {nodeId : String} (remote : nodeId ≠ swim.localNodeId)
    {existing : MemberRegister} (found : swim.membership.get nodeId = some existing)
    {first second : SwimMessage} (about : first.about = some nodeId)
    (about' : second.about = some nodeId) (sender sender' : String) (nowMs : Int)
    (unlifted : Unlifted nowMs existing first second) :
    ∃ one other,
      ((swim.onMessage sender first nowMs).1.onMessage sender' second nowMs).1.membership.get nodeId =
        some one ∧
      ((swim.onMessage sender' second nowMs).1.onMessage sender first nowMs).1.membership.get nodeId =
        some other ∧
      AgreeWhen (OrderFree nowMs existing first second) one other :=
  ⟨_, _, Swim.get_onMessages remote found about about' sender sender' nowMs,
    Swim.get_onMessages remote found about' about sender' sender nowMs,
    SwimMessage.apply_order nowMs (Membership.nodeId_of_get found) about about' unlifted⟩

/-! ### An active member in its first incarnation -/

def rumoredSwim : Swim :=
  let swim := Swim.new "self" .default (.new "self" "127.0.0.1:1" 1 0)
  { swim with membership := swim.membership.mergeRegister (.new "peer" "127.0.0.1:2" 1 0) }

def rumoredPeer : MemberRegister := .new "peer" "127.0.0.1:2" 1 0

/-- The peer's own later register, from another address. -/
def movedPeer : MemberRegister := { rumoredPeer with address := "127.0.0.1:3", heartbeat := 5 }

theorem rumoredSwim_get : rumoredSwim.membership.get "peer" = some rumoredPeer := by decide

theorem suspected_before_leaving :
    ∃ one other,
      ((rumoredSwim.onMessage "third" (.suspect "peer" 1) 5).1.onMessage "peer"
        (.leave "peer" 2) 5).1.membership.get "peer" = some one ∧
      ((rumoredSwim.onMessage "peer" (.leave "peer" 2) 5).1.onMessage "third"
        (.suspect "peer" 1) 5).1.membership.get "peer" = some other ∧
      one.hashedFields = other.hashedFields := by
  have unlifted : Unlifted 5 rumoredPeer (.suspect "peer" 1) (.leave "peer" 2) :=
    ⟨fun lifts => (nomatch lifts.1), id, id, fun lifts => absurd lifts.2 (by decide)⟩
  obtain ⟨one, other, first, second, _, agree⟩ :=
    @Swim.rumor_order rumoredSwim _ (by decide) _ rumoredSwim_get (.suspect "peer" 1)
      (.leave "peer" 2) rfl rfl "third" "peer" 5 unlifted
  exact ⟨one, other, first, second, agree.mpr trivial⟩

/-- The register with the new address is taken as a whole before the suspicion, and not at all after it,
when the register held outranks it. -/
theorem suspicion_hides_address :
    let one := ((rumoredSwim.onMessage "peer" (.alive movedPeer) 5).1.onMessage "third"
      (.suspect "peer" 1) 5).1.membership.get "peer"
    let other := ((rumoredSwim.onMessage "third" (.suspect "peer" 1) 5).1.onMessage "peer"
      (.alive movedPeer) 5).1.membership.get "peer"
    "peer" ≠ rumoredSwim.localNodeId ∧ rumoredSwim.membership.get "peer" = some rumoredPeer ∧
      Unlifted 5 rumoredPeer (.alive movedPeer) (.suspect "peer" 1) ∧
      one.map (fun held => (held.state, held.address)) = some (.suspected, "127.0.0.1:3") ∧
      other.map (fun held => (held.state, held.address)) = some (.suspected, "127.0.0.1:2") := by
  refine ⟨by decide, rumoredSwim_get, ⟨id, ?_, ?_, id⟩, by decide, by decide⟩
  · exact fun lifts => nomatch lifts.1
  · exact fun lifts => nomatch lifts.1

end Lycoris.Cluster
