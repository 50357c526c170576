import Lycoris.Cluster.Ownership

/-!
Views only move forward. No write of a node that owns its register lowers the order key of anything it
holds, a node that leaves keeps leaving, and messages and ticks leave the node's own metadata alone.
-/

namespace Lycoris.Cluster
open Lib

/-! ### Order keys -/

theorem le_saturatingSucc (n : UInt64) : n.toNat ≤ (saturatingSucc n).toNat := by
  have bound := n.toNat_lt
  rw [saturatingSucc_toNat]
  omega

theorem MemberState.rank_le_offline (state : MemberState) :
    state.rank.toNat ≤ MemberState.offline.rank.toNat := by
  cases state <;> decide

namespace MemberRegister

theorem orderKey_le {a b : MemberRegister} (incarnation : a.incarnation.toNat ≤ b.incarnation.toNat)
    (rank : a.state.rank.toNat ≤ b.state.rank.toNat) (heartbeat : a.heartbeat.toNat ≤ b.heartbeat.toNat) :
    a.orderKey ≤ b.orderKey :=
  Prod.Lex.toLex_mono ⟨incarnation, Prod.Lex.toLex_mono ⟨rank, heartbeat⟩⟩

theorem orderKey_merge (self other : MemberRegister) :
    (self.merge other).orderKey = max self.orderKey other.orderKey := by
  rcases lt_trichotomy self.orderKey other.orderKey with less | equal | greater
  · rw [merge_of_dominated less, max_eq_right less.le]
  · rw [merge_of_equal equal, max_eq_left equal.ge]
    rfl
  · rw [merge_of_dominating greater, max_eq_left greater.le]

theorem orderKey_le_merge (self other : MemberRegister) : self.orderKey ≤ (self.merge other).orderKey :=
  (le_max_left _ _).trans_eq (self.orderKey_merge other).symm

theorem orderKey_le_merge_right (self other : MemberRegister) :
    other.orderKey ≤ (self.merge other).orderKey :=
  (le_max_right _ _).trans_eq (self.orderKey_merge other).symm

theorem orderKey_le_bumpHeartbeat {register : MemberRegister}
    (own : register.state = .active ∨ register.state = .leaving) (nowMs : Int) :
    register.orderKey ≤ (register.bumpHeartbeat nowMs).orderKey := by
  refine orderKey_le (Nat.le_refl _) ?_ (le_saturatingSucc _)
  rw [bumpHeartbeat_state register nowMs own]

theorem orderKey_le_suspect (register : MemberRegister) (nowMs : Int) :
    register.orderKey ≤ (register.suspect nowMs).orderKey := by
  unfold suspect
  split
  · rename_i active
    refine orderKey_le (Nat.le_refl _) ?_ (le_saturatingSucc _)
    rw [active]
    exact (by decide : MemberState.active.rank.toNat ≤ MemberState.suspected.rank.toNat)
  · exact le_refl _

theorem orderKey_le_offline (register : MemberRegister) (nowMs : Int) :
    register.orderKey ≤ (register.offline nowMs).orderKey :=
  orderKey_le (Nat.le_refl _) register.state.rank_le_offline (le_saturatingSucc _)

theorem orderKey_le_leave {register : MemberRegister}
    (own : register.state = .active ∨ register.state = .leaving) (nowMs : Int) :
    register.orderKey ≤ (register.leave nowMs).orderKey := by
  refine orderKey_le (Nat.le_refl _) ?_ (le_saturatingSucc _)
  rcases own with active | leaving
  · rw [active]
    exact (by decide : MemberState.active.rank.toNat ≤ MemberState.leaving.rank.toNat)
  · rw [leaving]
    exact Nat.le_refl _

theorem orderKey_le_refute {register : MemberRegister} (active : register.state = .active)
    (nowMs : Int) : register.orderKey ≤ (register.refute nowMs).orderKey := by
  refine orderKey_le (le_saturatingSucc _) ?_ (le_saturatingSucc _)
  rw [active]
  exact Nat.le_refl _

theorem dominates_of_incarnation {register other : MemberRegister}
    (later : other.incarnation < register.incarnation) : register.dominates other = true :=
  dominates_iff.mpr (orderKey_lt.mpr (.inl (UInt64.lt_iff_toNat_lt.mp later)))

end MemberRegister

/-! ### Views -/

/-- Nothing known is lost or lowered. -/
def Rises (m m' : Membership) : Prop :=
  ∀ nodeId register, m.get nodeId = some register →
    ∃ next, m'.get nodeId = some next ∧ register.orderKey ≤ next.orderKey

theorem Rises.refl (m : Membership) : Rises m m :=
  fun _ register found => ⟨register, found, le_refl _⟩

theorem Rises.trans {m m' m'' : Membership} (first : Rises m m') (second : Rises m' m'') :
    Rises m m'' := by
  intro nodeId register found
  obtain ⟨next, found', above⟩ := first nodeId register found
  obtain ⟨last, found'', above'⟩ := second nodeId next found'
  exact ⟨last, found'', above.trans above'⟩

theorem rises_mergeRegister (m : Membership) (told : MemberRegister) : Rises m (m.mergeRegister told) := by
  intro nodeId register found
  by_cases here : told.nodeId = nodeId
  · exact ⟨_, Membership.get_mergeRegister_known here found, register.orderKey_le_merge told⟩
  · exact ⟨register, (Membership.get_mergeRegister_other here).trans found, le_refl _⟩

/-- A change in place that does not lower the register it is made to. -/
theorem Rises.of_change {m m' : Membership} {nodeId : String} {change : MemberRegister → MemberRegister}
    (read : ∀ other, m'.get other =
      if nodeId = other then (m.get other).map change else m.get other)
    (raises : ∀ register, m.get nodeId = some register →
      register.orderKey ≤ (change register).orderKey) : Rises m m' := by
  intro other register found
  by_cases here : nodeId = other
  · subst here
    refine ⟨change register, ?_, raises register found⟩
    rw [read, if_pos rfl, found, Option.map_some]
  · refine ⟨register, ?_, le_refl _⟩
    rw [read, if_neg here, found]

section Writes

variable {self : String} {Told : MemberRegister → Prop} {m m' : Membership}

theorem Write.rises (write : Write self Told m m') (owned : Owned self m) : Rises m m' := by
  obtain ⟨own, found, state⟩ := owned
  have only : ∀ register, m.get self = some register → register = own :=
    fun register known => Option.some.inj (known.symm.trans found)
  cases write with
  | gossip gossip =>
    cases gossip with
    | told other told => exact rises_mergeRegister m _
    | suspicion nowMs other known newer => exact rises_mergeRegister m _
    | departure nowMs other known newer => exact rises_mergeRegister m _
    | suspect nowMs other =>
      exact .of_change (Membership.get_suspect m _ nowMs) fun register _ => register.orderKey_le_suspect nowMs
    | offline nowMs other =>
      exact .of_change (Membership.get_offline m _ nowMs) fun register _ => register.orderKey_le_offline nowMs
    | heartbeat nowMs =>
      apply Rises.of_change (Membership.get_heartbeat m self nowMs)
      intro register known
      rw [only register known]
      exact MemberRegister.orderKey_le_bumpHeartbeat state nowMs
    | refute nowMs known staying =>
      apply Rises.of_change (Membership.get_refute m self nowMs)
      intro register known'
      rw [only register known']
      rw [only _ known] at staying
      exact MemberRegister.orderKey_le_refute (state.resolve_right staying) nowMs
  | leave nowMs =>
    apply Rises.of_change (Membership.get_leave m self nowMs)
    intro register known
    rw [only register known]
    exact MemberRegister.orderKey_le_leave state nowMs
  | annotate annotations nowMs known => exact rises_mergeRegister m _

/-! ### The own incarnation -/

/-- No write of a node takes its own incarnation back. -/
theorem OwnWrite.incarnation {own : MemberRegister} {after : Option MemberRegister}
    (write : OwnWrite (some own) after) :
    ∃ own', after = some own' ∧ own.incarnation ≤ own'.incarnation := by
  cases write with
  | gossip gossip =>
    cases gossip with
    | same => exact ⟨own, rfl, UInt64.le_refl _⟩
    | beat nowMs => exact ⟨_, rfl, UInt64.le_refl _⟩
    | refuted nowMs found _ =>
      obtain rfl := Option.some.inj found
      exact ⟨_, rfl, UInt64.le_iff_toNat_le.mpr (le_saturatingSucc own.incarnation)⟩
  | left nowMs => exact ⟨_, rfl, UInt64.le_refl _⟩
  | annotated annotations nowMs found =>
    obtain rfl := Option.some.inj found
    refine ⟨_, rfl, UInt64.le_of_eq ?_⟩
    unfold MemberRegister.merge
    split
    · rfl
    · split <;> rfl

theorem Writes.incarnation (writes : Writes self Told m m') {own : MemberRegister}
    (found : m.get self = some own) :
    ∃ own', m'.get self = some own' ∧ own.incarnation ≤ own'.incarnation := by
  induction writes with
  | refl => exact ⟨own, found, UInt64.le_refl _⟩
  | tail _ write ih =>
    obtain ⟨before, held, kept⟩ := ih
    obtain ⟨after, held', kept'⟩ := OwnWrite.incarnation (held ▸ write.own)
    exact ⟨after, held', UInt64.le_trans kept kept'⟩

/-! ### Leaving -/

/-- A node that leaves goes on leaving in the same incarnation. -/
def StaysLeaving (self : String) (m m' : Membership) : Prop :=
  ∀ own, m.get self = some own → own.state = .leaving →
    ∃ next, m'.get self = some next ∧ next.state = .leaving ∧ next.incarnation = own.incarnation

theorem StaysLeaving.refl (self : String) (m : Membership) : StaysLeaving self m m :=
  fun own found leaving => ⟨own, found, leaving, rfl⟩

theorem StaysLeaving.trans {m'' : Membership} (first : StaysLeaving self m m')
    (second : StaysLeaving self m' m'') : StaysLeaving self m m'' := by
  intro own found leaving
  obtain ⟨next, found', leaving', same⟩ := first own found leaving
  obtain ⟨last, found'', leaving'', same'⟩ := second next found' leaving'
  exact ⟨last, found'', leaving'', same'.trans same⟩

theorem Write.staysLeaving (write : Write self Told m m') : StaysLeaving self m m' := by
  intro own found leaving
  have change := write.own
  rw [found] at change
  generalize m'.get self = after at change
  cases change with
  | gossip gossip =>
    cases gossip with
    | same => exact ⟨own, rfl, leaving, rfl⟩
    | beat nowMs =>
      refine ⟨own.bumpHeartbeat nowMs, rfl, ?_, rfl⟩
      rw [MemberRegister.bumpHeartbeat_state own nowMs (.inr leaving), leaving]
    | refuted nowMs same staying =>
      rw [← Option.some.inj same] at staying
      exact absurd leaving staying
  | left nowMs => exact ⟨own.leave nowMs, rfl, rfl, rfl⟩
  | annotated annotations nowMs same =>
    obtain rfl := Option.some.inj same
    refine ⟨_, rfl, ?_, ?_⟩
    · rcases MemberRegister.merge_state own _ with kept | kept
      · rw [kept, leaving]
      · rw [kept, MemberRegister.bumpHeartbeat_state { own with annotations := annotations } nowMs
          (.inr leaving)]
        exact leaving
    · unfold MemberRegister.merge
      split
      · rfl
      · split
        · rfl
        · rfl

/-- What a run of writes does to the view of a node that owns its register. -/
theorem Writes.forward (writes : Writes self Told m m') (owned : Owned self m) :
    Rises m m' ∧ StaysLeaving self m m' := by
  induction writes with
  | refl => exact ⟨.refl m, .refl self m⟩
  | tail earlier write ih =>
    exact ⟨ih.1.trans (write.rises (Writes.owned earlier owned)), ih.2.trans write.staysLeaving⟩

/-! ### The own metadata -/

/-- The own register with its metadata and its state as they were. -/
def KeepsOwn (self : String) (m m' : Membership) : Prop :=
  ∀ own, m.get self = some own →
    ∃ next, m'.get self = some next ∧ next.address = own.address ∧ next.labels = own.labels ∧
      next.annotations = own.annotations ∧ next.state = own.state

theorem KeepsOwn.refl (self : String) (m : Membership) : KeepsOwn self m m :=
  fun own found => ⟨own, found, rfl, rfl, rfl, rfl⟩

theorem KeepsOwn.trans {m'' : Membership} (first : KeepsOwn self m m') (second : KeepsOwn self m' m'') :
    KeepsOwn self m m'' := by
  intro own found
  obtain ⟨next, found', address, labels, annotations, state⟩ := first own found
  obtain ⟨last, found'', address', labels', annotations', state'⟩ := second next found'
  exact ⟨last, found'', address'.trans address, labels'.trans labels, annotations'.trans annotations,
    state'.trans state⟩

theorem Gossip.keepsOwn (gossip : Gossip self Told m m') (owned : Owned self m) : KeepsOwn self m m' := by
  obtain ⟨register, held, state⟩ := owned
  intro own found
  obtain rfl := Option.some.inj (found.symm.trans held)
  have change := gossip.own
  rw [found] at change
  generalize m'.get self = after at change
  cases change with
  | same => exact ⟨own, rfl, rfl, rfl, rfl, rfl⟩
  | beat nowMs =>
    exact ⟨own.bumpHeartbeat nowMs, rfl, rfl, rfl, rfl, MemberRegister.bumpHeartbeat_state own nowMs state⟩
  | refuted nowMs same staying =>
    obtain rfl := Option.some.inj same
    exact ⟨own.refute nowMs, rfl, rfl, rfl, rfl, (state.resolve_right staying).symm⟩

theorem Gossip.keepsOwn_run (gossips : Relation.ReflTransGen (Gossip self Told) m m')
    (owned : Owned self m) : KeepsOwn self m m' ∧ Owned self m' := by
  induction gossips with
  | refl => exact ⟨.refl self m, owned⟩
  | tail _ gossip ih => exact ⟨ih.1.trans (gossip.keepsOwn ih.2), (Write.gossip gossip).owned ih.2⟩

end Writes

/-- A message or a tick. -/
def SwimEvent.FromOutside : SwimEvent → Prop
  | .message _ _ _ => True
  | .tick _ _ => True
  | _ => False

namespace Swim

theorem step_gossips {swim : Swim} (pings : swim.PingsElsewhere) {event : SwimEvent}
    (outside : event.FromOutside) : ∃ Told, Gossiped Told swim (swim.step event) := by
  cases event with
  | message sender message nowMs => exact ⟨_, onMessage_gossips pings sender message nowMs⟩
  | tick iteration nowMs => exact ⟨fun _ => False, tick_gossips pings iteration nowMs⟩
  | leave nowMs => exact outside.elim
  | annotate annotations nowMs => exact outside.elim

theorem run_keepsOwn {swim : Swim} (pings : swim.PingsElsewhere)
    (owned : Owned swim.localNodeId swim.membership) {events : List SwimEvent}
    (outside : ∀ event ∈ events, event.FromOutside) :
    KeepsOwn swim.localNodeId swim.membership (events.foldl step swim).membership := by
  induction events generalizing swim with
  | nil => exact .refl _ _
  | cons event rest ih =>
    obtain ⟨Told, gossiped⟩ := step_gossips pings (outside event List.mem_cons_self)
    obtain ⟨kept, owned'⟩ := Gossip.keepsOwn_run gossiped.writes owned
    have later := ih gossiped.pings (gossiped.self ▸ owned') fun other member =>
      outside other (List.mem_cons_of_mem event member)
    rw [gossiped.self] at later
    exact kept.trans later

end Swim

end Lycoris.Cluster
