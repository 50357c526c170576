import Lycoris.Cluster.Writes

/-!
A node's hold on its own register. Runs of the failure detector keep that register `Active` or
`Leaving`, and rumors about the node are answered by a register that outranks them.
-/

namespace Lycoris.Cluster
open Lib

/-! ### Runs -/

/-- What the daemon does with its failure detector: messages, ticks, and the two changes it makes to
its own register through `membership_mut`. -/
inductive SwimEvent where
  | message (sender : String) (message : SwimMessage) (nowMs : Int)
  | tick (iteration : Iteration) (nowMs : Int)
  | leave (nowMs : Int)
  | annotate (annotations : StringMap) (nowMs : Int)

/-- The registers an event brings from outside. -/
def SwimEvent.Tells (event : SwimEvent) (register : MemberRegister) : Prop :=
  ∃ sender nowMs, event = .message sender (.alive register) nowMs

namespace Swim

def step (swim : Swim) : SwimEvent → Swim
  | .message sender message nowMs => (swim.onMessage sender message nowMs).1
  | .tick iteration nowMs => (swim.tick iteration nowMs).1
  | .leave nowMs =>
    { swim with membership := (swim.membership.leave swim.localNodeId nowMs).1 }
  | .annotate annotations nowMs =>
    match swim.membership.get swim.localNodeId with
    | some current =>
      let updated := ({ current with annotations := annotations } : MemberRegister).bumpHeartbeat nowMs
      { swim with membership := swim.membership.mergeRegister updated }
    | none => swim

/-- The states of a node that started from its own `Active` register. -/
inductive Reachable : Swim → Prop
  | start (localNodeId : String) (config : SwimConfig) {own : MemberRegister}
      (named : own.nodeId = localNodeId) (active : own.state = .active) :
      Reachable (new localNodeId config own)
  | step {swim : Swim} (reachable : Reachable swim) (event : SwimEvent) : Reachable (swim.step event)

theorem step_advances {swim : Swim} (pings : swim.PingsElsewhere) (event : SwimEvent) :
    Advance event.Tells swim (swim.step event) := by
  cases event with
  | message sender message nowMs =>
    apply ((onMessage_gossips pings sender message nowMs).widen _).advance
    intro register told
    exact ⟨sender, nowMs, by rw [told]⟩
  | tick iteration nowMs => exact (tick_gossips pings iteration nowMs).advance
  | leave nowMs => exact .write pings (.leave nowMs)
  | annotate annotations nowMs =>
    unfold step
    dsimp only
    split
    · rename_i found
      exact .write pings (.annotate annotations nowMs found)
    · exact .refl pings

end Swim

/-! ### The own register -/

/-- The node knows itself, as a member that is active or has chosen to leave. -/
def Owned (self : String) (membership : Membership) : Prop :=
  ∃ own, membership.get self = some own ∧ (own.state = .active ∨ own.state = .leaving)

namespace MemberRegister

theorem bumpHeartbeat_state (register : MemberRegister) (nowMs : Int)
    (own : register.state = .active ∨ register.state = .leaving) :
    (register.bumpHeartbeat nowMs).state = register.state := by
  rcases own with active | leaving
  · simp [bumpHeartbeat, active]
  · simp [bumpHeartbeat, leaving]

theorem merge_state (self other : MemberRegister) :
    (self.merge other).state = self.state ∨ (self.merge other).state = other.state := by
  unfold merge
  split
  · exact .inr rfl
  · split
    · exact .inl rfl
    · exact .inl rfl

end MemberRegister

theorem Write.owned {self : String} {Told : MemberRegister → Prop} {m m' : Membership}
    (write : Write self Told m m') (owned : Owned self m) : Owned self m' := by
  obtain ⟨own, found, state⟩ := owned
  have change := write.own
  unfold Owned
  rw [found] at change
  generalize m'.get self = after at change
  cases change with
  | gossip gossip =>
    cases gossip with
    | same => exact ⟨own, rfl, state⟩
    | beat nowMs =>
      refine ⟨own.bumpHeartbeat nowMs, rfl, ?_⟩
      rw [MemberRegister.bumpHeartbeat_state own nowMs state]
      exact state
    | refuted nowMs _ _ => exact ⟨_, rfl, .inl rfl⟩
  | left nowMs => exact ⟨own.leave nowMs, rfl, .inr rfl⟩
  | annotated annotations nowMs same =>
    obtain rfl := Option.some.inj same
    refine ⟨_, rfl, ?_⟩
    rcases MemberRegister.merge_state own _ with kept | kept
    · rw [kept]
      exact state
    · rw [kept, MemberRegister.bumpHeartbeat_state { own with annotations := annotations } nowMs state]
      exact state

theorem Writes.owned {self : String} {Told : MemberRegister → Prop} {m m' : Membership}
    (writes : Writes self Told m m') (owned : Owned self m) : Owned self m' := by
  induction writes with
  | refl => exact owned
  | tail _ write ih => exact write.owned ih

namespace Swim

theorem get_new (localNodeId : String) (config : SwimConfig) {own : MemberRegister}
    (named : own.nodeId = localNodeId) : (new localNodeId config own).membership.get localNodeId = some own := by
  show (Membership.new.mergeRegister own).get localNodeId = some own
  rw [Membership.get_mergeRegister, if_pos named]
  simp [Membership.new, Membership.get, KeyedMap.joined]

theorem new_owned (localNodeId : String) (config : SwimConfig) {own : MemberRegister}
    (named : own.nodeId = localNodeId) (active : own.state = .active) :
    (new localNodeId config own).PingsElsewhere ∧
      Owned localNodeId (new localNodeId config own).membership := by
  constructor
  · intro seq pending found
    simp [new] at found
  · exact ⟨own, get_new localNodeId config named, .inl active⟩

theorem Reachable.owned {swim : Swim} (reachable : Reachable swim) :
    swim.PingsElsewhere ∧ Owned swim.localNodeId swim.membership := by
  induction reachable with
  | start localNodeId config named active => exact new_owned localNodeId config named active
  | step _ event ih =>
    have advance := step_advances ih.1 event
    refine ⟨advance.pings, ?_⟩
    rw [advance.self]
    exact advance.writes.owned ih.2

end Swim

/-! ### Rumors -/

/-- The registers a message can put into the views of those who hear it. A `Suspect` names only the
incarnation, so it stands for a suspected register with any other contents. -/
def SwimMessage.Carries : SwimMessage → MemberRegister → Prop
  | .suspect nodeId incarnation, rumor =>
    rumor.nodeId = nodeId ∧ rumor.incarnation = incarnation ∧ rumor.state = .suspected
  | .alive register, rumor => rumor = register
  | _, _ => False

namespace Swim

/-- The local register outranks the rumor, or the rumor says what it says. -/
def Regained (swim : Swim) (rumor : MemberRegister) : Prop :=
  ∃ own, swim.membership.get swim.localNodeId = some own ∧
    (rumor.orderKey < own.orderKey ∨ rumor.hashedFields = own.hashedFields)

theorem get_refuteAndBroadcast {swim : Swim} {own : MemberRegister}
    (found : swim.membership.get swim.localNodeId = some own) (nowMs : Int) :
    (swim.refuteAndBroadcast nowMs).1.membership.get swim.localNodeId = some (own.refute nowMs) := by
  show (swim.membership.refute swim.localNodeId nowMs).1.get swim.localNodeId = _
  rw [Membership.get_refute, if_pos rfl, found, Option.map_some]

/-- An `Active` rumor about the node itself is not answered. -/
theorem onMessage_active {swim : Swim} (message : SwimMessage) (rumor : MemberRegister)
    (carries : message.Carries rumor) (about : rumor.nodeId = swim.localNodeId)
    (active : rumor.state = .active) (sender : String) (nowMs : Int) :
    swim.onMessage sender message nowMs = (swim, []) := by
  cases message with
  | ping seq => exact carries.elim
  | ack seq => exact carries.elim
  | leave nodeId incarnation => exact carries.elim
  | suspect nodeId incarnation =>
    have suspected := carries.2.2
    rw [active] at suspected
    cases suspected
  | alive register =>
    obtain rfl : rumor = register := carries
    show swim.handleAliveState rumor nowMs = (swim, [])
    rw [handleAliveState, if_pos about, refuteIfDominated, if_pos active]

/-- Any other rumor about a node that is not leaving either is outranked already or is refuted. -/
theorem onMessage_refutes {swim : Swim} {message : SwimMessage} {rumor own : MemberRegister}
    (carries : message.Carries rumor) (about : rumor.nodeId = swim.localNodeId)
    (inactive : rumor.state ≠ .active)
    (found : swim.membership.get swim.localNodeId = some own) (staying : own.state ≠ .leaving)
    (sender : String) (nowMs : Int) :
    ((swim.onMessage sender message nowMs).1 = swim ∧ rumor.orderKey < own.orderKey) ∨
      (swim.onMessage sender message nowMs).1.membership.get swim.localNodeId =
        some (own.refute nowMs) := by
  cases message with
  | ping seq => exact carries.elim
  | ack seq => exact carries.elim
  | leave nodeId incarnation => exact carries.elim
  | suspect nodeId incarnation =>
    obtain ⟨named, same, _⟩ := carries
    have here : nodeId = swim.localNodeId := named.symm.trans about
    subst here
    show ((swim.handleSuspectState swim.localNodeId incarnation nowMs).1 = swim ∧ _) ∨
      (swim.handleSuspectState swim.localNodeId incarnation nowMs).1.membership.get _ = _
    rw [handleSuspectState, if_pos rfl, found]
    by_cases notOlder : own.incarnation ≤ incarnation
    · apply Or.inr
      have dominated : (own.state ≠ .leaving && incarnation ≥ own.incarnation : Bool) = true := by
        simp [staying, notOlder]
      simp only [dominated, if_true]
      exact get_refuteAndBroadcast found nowMs
    · apply Or.inl
      have dominated : (own.state ≠ .leaving && incarnation ≥ own.incarnation : Bool) = false := by
        simp [notOlder]
      simp only [dominated, Bool.false_eq_true, if_false, true_and]
      rw [MemberRegister.orderKey_lt, same]
      exact .inl (UInt64.lt_iff_toNat_lt.mp (UInt64.not_le.mp notOlder))
  | alive register =>
    obtain rfl : rumor = register := carries
    show ((swim.handleAliveState rumor nowMs).1 = swim ∧ _) ∨
      (swim.handleAliveState rumor nowMs).1.membership.get _ = _
    rw [handleAliveState, if_pos about, refuteIfDominated, if_neg inactive, found]
    by_cases outranked : own.dominates rumor = true
    · apply Or.inl
      simp only [outranked, Bool.or_true, if_true, true_and]
      exact MemberRegister.dominates_iff.mp outranked
    · apply Or.inr
      simp only [staying, outranked, decide_false, Bool.or_self, Bool.false_eq_true, if_false]
      exact get_refuteAndBroadcast found nowMs

/-- In a running node that is not leaving, a `Suspect` or a non-`Active` `Alive` rumor about the node
itself, of an incarnation the node can still pass, leaves an `Active` local register above the rumor,
which wins over it in every view. An `Active` rumor changes nothing. -/
theorem rumor_answered {swim : Swim} (reachable : swim.Reachable) {own : MemberRegister}
    (found : swim.membership.get swim.localNodeId = some own) (staying : own.state ≠ .leaving)
    (message : SwimMessage) (rumor : MemberRegister) (carries : message.Carries rumor)
    (about : rumor.nodeId = swim.localNodeId) (sender : String) (nowMs : Int) :
    (rumor.state = .active → (swim.onMessage sender message nowMs).1 = swim) ∧
    (rumor.state ≠ .active → rumor.incarnation < saturatingSucc own.incarnation →
      ∃ restored,
        (swim.onMessage sender message nowMs).1.membership.get swim.localNodeId = some restored ∧
        restored.state = .active ∧ rumor.orderKey < restored.orderKey ∧
        ∀ view : Membership, view.get swim.localNodeId = some rumor →
          (view.mergeRegister restored).get swim.localNodeId = some restored) := by
  constructor
  · intro active
    rw [onMessage_active message rumor carries about active]
  · intro inactive passable
    have active : own.state = .active := by
      obtain ⟨_, own', known, state⟩ := reachable.owned
      obtain rfl := Option.some.inj (found.symm.trans known)
      exact state.resolve_right staying
    have named := Membership.nodeId_of_get found
    have wins : ∀ restored : MemberRegister, restored.nodeId = swim.localNodeId →
        rumor.orderKey < restored.orderKey → ∀ view : Membership,
        view.get swim.localNodeId = some rumor →
        (view.mergeRegister restored).get swim.localNodeId = some restored := by
      intro restored here above view holds
      rw [Membership.get_mergeRegister_known here holds, MemberRegister.merge_of_dominated above]
    rcases onMessage_refutes carries about inactive found staying sender nowMs with
      ⟨unchanged, above⟩ | refuted
    · refine ⟨own, ?_, active, above, wins own named above⟩
      rw [unchanged, found]
    · have above : rumor.orderKey < (own.refute nowMs).orderKey := by
        rw [MemberRegister.orderKey_lt]
        exact .inl (UInt64.lt_iff_toNat_lt.mp passable)
      exact ⟨own.refute nowMs, refuted, rfl, above, wins _ named above⟩

/-- A node of one incarnation, and a suspicion of it. -/
def ownRegister : MemberRegister := .new "node" "127.0.0.1:1" 1 0
def freshNode : Swim := .new "node" .default ownRegister
def suspicion : MemberRegister := { ownRegister with state := .suspected, heartbeat := 7 }

theorem freshNode_reachable : freshNode.Reachable := .start "node" .default rfl rfl

theorem freshNode_own : freshNode.membership.get freshNode.localNodeId = some ownRegister := by
  decide

theorem suspicion_answered :
    ∃ restored,
      (freshNode.onMessage "peer" (.suspect "node" 1) 5).1.membership.get "node" = some restored ∧
      restored.state = .active ∧ suspicion.orderKey < restored.orderKey := by
  obtain ⟨_, answered⟩ := rumor_answered freshNode_reachable freshNode_own (by decide)
    (.suspect "node" 1) suspicion ⟨rfl, rfl, rfl⟩ rfl "peer" 5
  obtain ⟨restored, found, active, above, _⟩ := answered (by decide) (by decide)
  exact ⟨restored, found, active, above⟩

/-- An `Active` register of a later incarnation, as an earlier life of the node may have left. -/
def laterLife : MemberRegister := .new "node" "127.0.0.1:9" 2 0

theorem active_rumor_unanswered :
    freshNode.Reachable ∧
    freshNode.membership.get freshNode.localNodeId = some ownRegister ∧
    ownRegister.state ≠ .leaving ∧
    (SwimMessage.alive laterLife).Carries laterLife ∧ laterLife.nodeId = freshNode.localNodeId ∧
    ¬ (freshNode.onMessage "peer" (.alive laterLife) 5).1.Regained laterLife := by
  refine ⟨freshNode_reachable, freshNode_own, by decide, rfl, rfl, ?_⟩
  have unchanged : (freshNode.onMessage "peer" (.alive laterLife) 5).1 = freshNode := by
    rw [onMessage_active (.alive laterLife) laterLife rfl rfl rfl]
  rw [unchanged]
  rintro ⟨own, found, regained⟩
  obtain rfl := Option.some.inj (found.symm.trans freshNode_own)
  revert regained
  decide

end Swim

end Lycoris.Cluster
