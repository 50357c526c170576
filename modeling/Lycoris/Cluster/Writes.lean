import Lycoris.Cluster.Swim

/-!
What the failure detector does to its membership. `Gossip` lists the single writes that messages and
ticks make, with the guards under which the code makes them; `Write` adds the node's own changes to its
register, and `Swim.Advance` says that a transition is a run of writes that never probes the node
itself. What holds of every write then holds of every transition.
-/

namespace Lycoris.Cluster
open Lib

/-- A write that a message or a tick makes the node `self` do, where `Told` holds of the registers it may have
been told. -/
inductive Gossip (self : String) (Told : MemberRegister → Prop) : Membership → Membership → Prop
  | told {m : Membership} {register : MemberRegister} (other : register.nodeId ≠ self)
      (told : Told register) : Gossip self Told m (m.mergeRegister register)
  | suspicion {m : Membership} {nodeId : String} {existing : MemberRegister} {incarnation : UInt64}
      (nowMs : Int) (other : nodeId ≠ self) (found : m.get nodeId = some existing)
      (newer : existing.incarnation ≤ incarnation) :
      Gossip self Told m
        (m.mergeRegister (({ existing with incarnation := incarnation } : MemberRegister).suspect nowMs))
  | departure {m : Membership} {nodeId : String} {existing : MemberRegister} {incarnation : UInt64}
      (nowMs : Int) (other : nodeId ≠ self) (found : m.get nodeId = some existing)
      (newer : existing.incarnation ≤ incarnation) :
      Gossip self Told m
        (m.mergeRegister (({ existing with incarnation := incarnation } : MemberRegister).leave nowMs))
  | suspect {m : Membership} {nodeId : String} (nowMs : Int) (other : nodeId ≠ self) :
      Gossip self Told m (m.suspect nodeId nowMs).1
  | offline {m : Membership} {nodeId : String} (nowMs : Int) (other : nodeId ≠ self) :
      Gossip self Told m (m.offline nodeId nowMs).1
  | heartbeat {m : Membership} (nowMs : Int) : Gossip self Told m (m.heartbeat self nowMs).1
  | refute {m : Membership} {own : MemberRegister} (nowMs : Int) (found : m.get self = some own)
      (staying : own.state ≠ .leaving) : Gossip self Told m (m.refute self nowMs).1

/-- One write of the node `self` to its membership. -/
inductive Write (self : String) (Told : MemberRegister → Prop) : Membership → Membership → Prop
  | gossip {m m' : Membership} (gossip : Gossip self Told m m') : Write self Told m m'
  | leave {m : Membership} (nowMs : Int) : Write self Told m (m.leave self nowMs).1
  | annotate {m : Membership} {own : MemberRegister} (annotations : StringMap) (nowMs : Int)
      (found : m.get self = some own) :
      Write self Told m
        (m.mergeRegister (({ own with annotations := annotations } : MemberRegister).bumpHeartbeat nowMs))

abbrev Writes (self : String) (Told : MemberRegister → Prop) : Membership → Membership → Prop :=
  Relation.ReflTransGen (Write self Told)

theorem Gossip.widen {self : String} {Told Told' : MemberRegister → Prop} {m m' : Membership}
    (wider : ∀ register, Told register → Told' register) (gossip : Gossip self Told m m') :
    Gossip self Told' m m' := by
  cases gossip with
  | told other told => exact .told other (wider _ told)
  | suspicion nowMs other found newer => exact .suspicion nowMs other found newer
  | departure nowMs other found newer => exact .departure nowMs other found newer
  | suspect nowMs other => exact .suspect nowMs other
  | offline nowMs other => exact .offline nowMs other
  | heartbeat nowMs => exact .heartbeat nowMs
  | refute nowMs found staying => exact .refute nowMs found staying

/-- What a message or a tick does to the own register. -/
inductive OwnGossip (before : Option MemberRegister) : Option MemberRegister → Prop
  | same : OwnGossip before before
  | beat (nowMs : Int) : OwnGossip before (before.map (·.bumpHeartbeat nowMs))
  | refuted {own : MemberRegister} (nowMs : Int) (found : before = some own)
      (staying : own.state ≠ .leaving) : OwnGossip before (some (own.refute nowMs))

theorem Gossip.own {self : String} {Told : MemberRegister → Prop} {m m' : Membership}
    (gossip : Gossip self Told m m') : OwnGossip (m.get self) (m'.get self) := by
  cases gossip with
  | told other told =>
    rw [Membership.get_mergeRegister_other other]
    exact .same
  | suspicion nowMs other known newer =>
    rw [Membership.get_mergeRegister_other]
    · exact .same
    · rw [Membership.nodeId_suspect]
      exact fun same => other ((Membership.nodeId_of_get known).symm.trans same)
  | departure nowMs other known newer =>
    rw [Membership.get_mergeRegister_other]
    · exact .same
    · exact fun same => other ((Membership.nodeId_of_get known).symm.trans same)
  | suspect nowMs other =>
    rw [Membership.get_suspect, if_neg other]
    exact .same
  | offline nowMs other =>
    rw [Membership.get_offline, if_neg other]
    exact .same
  | heartbeat nowMs =>
    rw [Membership.get_heartbeat, if_pos rfl]
    exact .beat nowMs
  | refute nowMs found staying =>
    rw [Membership.get_refute, if_pos rfl, found, Option.map_some]
    exact .refuted nowMs rfl staying

/-- What a write does to the own register. -/
inductive OwnWrite (before : Option MemberRegister) : Option MemberRegister → Prop
  | gossip {after : Option MemberRegister} (gossip : OwnGossip before after) : OwnWrite before after
  | left (nowMs : Int) : OwnWrite before (before.map (·.leave nowMs))
  | annotated {own : MemberRegister} (annotations : StringMap) (nowMs : Int) (found : before = some own) :
      OwnWrite before
        (some (own.merge (({ own with annotations := annotations } : MemberRegister).bumpHeartbeat nowMs)))

theorem Write.own {self : String} {Told : MemberRegister → Prop} {m m' : Membership}
    (write : Write self Told m m') : OwnWrite (m.get self) (m'.get self) := by
  cases write with
  | gossip gossip => exact .gossip gossip.own
  | leave nowMs =>
    rw [Membership.get_leave, if_pos rfl]
    exact .left nowMs
  | annotate annotations nowMs found =>
    have named := Membership.nodeId_of_get found
    rw [Membership.get_mergeRegister_known (by exact named) found]
    exact .annotated annotations nowMs found

namespace Swim

/-- No probe of the node itself is under way. -/
def PingsElsewhere (swim : Swim) : Prop :=
  ∀ (seq : UInt64) (pending : PendingPing),
    swim.pendingPings[seq]? = some pending → pending.target ≠ swim.localNodeId

structure Advance (Told : MemberRegister → Prop) (swim next : Swim) : Prop where
  self : next.localNodeId = swim.localNodeId
  config : next.config = swim.config
  pings : next.PingsElsewhere
  writes : Writes swim.localNodeId Told swim.membership next.membership

namespace Advance

variable {Told : MemberRegister → Prop} {swim : Swim}

theorem refl (pings : swim.PingsElsewhere) : Advance Told swim swim :=
  ⟨rfl, rfl, pings, .refl⟩

/-- A single write, with everything but the membership as it was. -/
theorem write {membership : Membership} (pings : swim.PingsElsewhere)
    (one : Write swim.localNodeId Told swim.membership membership) :
    Advance Told swim { swim with membership := membership } :=
  ⟨rfl, rfl, pings, .single one⟩

end Advance

/-- An advance by messages and ticks only. -/
structure Gossiped (Told : MemberRegister → Prop) (swim next : Swim) : Prop where
  self : next.localNodeId = swim.localNodeId
  config : next.config = swim.config
  pings : next.PingsElsewhere
  writes : Relation.ReflTransGen (Gossip swim.localNodeId Told) swim.membership next.membership

namespace Gossiped

variable {Told : MemberRegister → Prop} {swim next last : Swim}

theorem refl (pings : swim.PingsElsewhere) : Gossiped Told swim swim :=
  ⟨rfl, rfl, pings, .refl⟩

theorem trans (first : Gossiped Told swim next) (second : Gossiped Told next last) :
    Gossiped Told swim last where
  self := second.self.trans first.self
  config := second.config.trans first.config
  pings := second.pings
  writes := first.writes.trans (first.self ▸ second.writes)

theorem advance (gossiped : Gossiped Told swim next) : Advance Told swim next where
  self := gossiped.self
  config := gossiped.config
  pings := gossiped.pings
  writes := Relation.ReflTransGen.mono (fun _ _ => Write.gossip) _ _ gossiped.writes

theorem widen {Told' : MemberRegister → Prop} (wider : ∀ register, Told register → Told' register)
    (gossiped : Gossiped Told swim next) : Gossiped Told' swim next where
  self := gossiped.self
  config := gossiped.config
  pings := gossiped.pings
  writes := Relation.ReflTransGen.mono (fun _ _ => Gossip.widen wider) _ _ gossiped.writes

/-- A single write, with everything but the membership as it was. -/
theorem write {membership : Membership} (pings : swim.PingsElsewhere)
    (one : Gossip swim.localNodeId Told swim.membership membership) :
    Gossiped Told swim { swim with membership := membership } :=
  ⟨rfl, rfl, pings, .single one⟩

/-- A loop advances when each of its turns does. -/
theorem foldl {α : Type} {turn : Swim × List SwimAction → α → Swim × List SwimAction}
    {items : List α} (pings : swim.PingsElsewhere)
    (turns : ∀ acc item, item ∈ items → acc.1.PingsElsewhere → acc.1.localNodeId = swim.localNodeId →
      Gossiped Told acc.1 (turn acc item).1) (actions : List SwimAction) :
    Gossiped Told swim (items.foldl turn (swim, actions)).1 := by
  have general : ∀ (rest : List α) (acc : Swim × List SwimAction),
      (∀ item ∈ rest, item ∈ items) → Gossiped Told swim acc.1 →
      Gossiped Told swim (rest.foldl turn acc).1 := by
    intro rest
    induction rest with
    | nil => exact fun acc _ advance => advance
    | cons item rest ih =>
      intro acc inside advance
      apply ih _ fun other member => inside other (List.mem_cons_of_mem item member)
      apply advance.trans
      exact turns acc item (inside item List.mem_cons_self) advance.pings advance.self
  exact general items (swim, actions) (fun _ member => member) (refl pings)

end Gossiped

section Messages

variable {Told : MemberRegister → Prop} {swim : Swim}

theorem handleAck_gossips (pings : swim.PingsElsewhere) (seq : UInt64) :
    Gossiped Told swim (swim.handleAck seq) := by
  unfold handleAck
  split
  · refine ⟨rfl, rfl, ?_, .refl⟩
    intro other pending found
    rw [Std.ExtTreeMap.getElem?_erase] at found
    split at found
    · cases found
    · exact pings other pending found
  · exact .refl pings

theorem refuteAndBroadcast_gossips (pings : swim.PingsElsewhere) {own : MemberRegister}
    (found : swim.membership.get swim.localNodeId = some own) (staying : own.state ≠ .leaving)
    (nowMs : Int) : Gossiped Told swim (swim.refuteAndBroadcast nowMs).1 :=
  .write pings (.refute nowMs found staying)

theorem handleSuspectState_gossips (pings : swim.PingsElsewhere) (nodeId : String)
    (incarnation : UInt64) (nowMs : Int) :
    Gossiped Told swim (swim.handleSuspectState nodeId incarnation nowMs).1 := by
  unfold handleSuspectState
  by_cases about : nodeId = swim.localNodeId
  · subst about
    rw [if_pos rfl]
    cases found : swim.membership.get swim.localNodeId with
    | none => exact .refl pings
    | some own =>
      dsimp only
      split
      · rename_i dominated
        simp only [ne_eq, decide_not, Bool.and_eq_true, Bool.not_eq_true',
          decide_eq_false_iff_not] at dominated
        exact refuteAndBroadcast_gossips pings found dominated.1 nowMs
      · exact .refl pings
  · rw [if_neg about]
    cases found : swim.membership.get nodeId with
    | none => exact .refl pings
    | some existing =>
      dsimp only
      split
      · exact .refl pings
      · rename_i notOlder
        exact .write pings (.suspicion nowMs about found (UInt64.not_lt.mp notOlder))

theorem handleLeaveState_gossips (pings : swim.PingsElsewhere) (nodeId : String)
    (incarnation : UInt64) (nowMs : Int) :
    Gossiped Told swim (swim.handleLeaveState nodeId incarnation nowMs) := by
  unfold handleLeaveState
  by_cases about : nodeId = swim.localNodeId
  · rw [if_pos about]
    exact .refl pings
  · rw [if_neg about]
    cases found : swim.membership.get nodeId with
    | none => exact .refl pings
    | some existing =>
      dsimp only
      split
      · exact .refl pings
      · rename_i notOlder
        exact .write pings (.departure nowMs about found (UInt64.not_lt.mp notOlder))

theorem handleAliveState_gossips (pings : swim.PingsElsewhere) (register : MemberRegister)
    (nowMs : Int) : Gossiped (· = register) swim (swim.handleAliveState register nowMs).1 := by
  unfold handleAliveState
  by_cases about : register.nodeId = swim.localNodeId
  · rw [if_pos about, refuteIfDominated]
    split
    · exact .refl pings
    · cases found : swim.membership.get swim.localNodeId with
      | none => exact .refl pings
      | some own =>
        dsimp only
        split
        · exact .refl pings
        · rename_i refutes
          simp only [Bool.or_eq_true, decide_eq_true_eq, not_or] at refutes
          exact refuteAndBroadcast_gossips pings found refutes.1 nowMs
  · rw [if_neg about]
    exact .write pings (.told about rfl)

/-- What a message makes a node write; only an `Alive` tells it a register. -/
theorem onMessage_gossips (pings : swim.PingsElsewhere) (sender : String) (message : SwimMessage)
    (nowMs : Int) :
    Gossiped (fun register => message = .alive register) swim
      (swim.onMessage sender message nowMs).1 := by
  cases message with
  | ping seq => exact .refl pings
  | ack seq => exact handleAck_gossips pings seq
  | suspect nodeId incarnation => exact handleSuspectState_gossips pings nodeId incarnation nowMs
  | alive register =>
    apply (handleAliveState_gossips pings register nowMs).widen
    intro told same
    rw [same]
  | leave nodeId incarnation => exact handleLeaveState_gossips pings nodeId incarnation nowMs

end Messages

section Ticks

variable {Told : MemberRegister → Prop} {swim : Swim}

theorem markSuspected_gossips (pings : swim.PingsElsewhere) {target : String}
    (other : target ≠ swim.localNodeId) (nowMs : Int) :
    Gossiped Told swim (swim.markSuspected target nowMs).1 := by
  unfold markSuspected
  dsimp only
  split
  · exact ⟨rfl, rfl, pings, .refl⟩
  · exact ⟨rfl, rfl, pings, .single (.suspect nowMs other)⟩

theorem timedOut_gossips (nowMs : Int) (acc : Swim × List SwimAction) (seq : UInt64)
    (pings : acc.1.PingsElsewhere) : Gossiped Told acc.1 (timedOut nowMs acc seq).1 := by
  unfold timedOut
  cases found : acc.1.pendingPings[seq]? with
  | none => exact .refl pings
  | some pending =>
    let cleared : Swim := { acc.1 with pendingPings := acc.1.pendingPings.erase seq }
    have elsewhere : cleared.PingsElsewhere := by
      intro other waiting still
      rw [Std.ExtTreeMap.getElem?_erase] at still
      split at still
      · cases still
      · exact pings other waiting still
    have first : Gossiped Told acc.1 cleared := ⟨rfl, rfl, elsewhere, .refl⟩
    exact first.trans (markSuspected_gossips elsewhere (pings seq pending found) nowMs)

theorem checkTimeouts_gossips (pings : swim.PingsElsewhere) (iteration : Iteration) (nowU64 : Nat)
    (nowMs : Int) : Gossiped Told swim (swim.checkTimeouts iteration nowU64 nowMs).1 :=
  .foldl pings (fun acc seq _ elsewhere _ => timedOut_gossips nowMs acc seq elsewhere) []

/-- The timer loop only ever notes members it was given. -/
theorem suspectTimer_subset (timeout nowMs : Int) (suspected : List String)
    (acc : Std.ExtTreeMap String Int compare × List String) {nodeId : String}
    (noted : nodeId ∈ (suspected.foldl (suspectTimer timeout nowMs) acc).2) :
    nodeId ∈ acc.2 ∨ nodeId ∈ suspected := by
  induction suspected generalizing acc with
  | nil => exact .inl noted
  | cons first rest ih =>
    rcases ih _ noted with before | later
    · unfold suspectTimer at before
      dsimp only at before
      split at before
      · rcases List.mem_append.mp before with old | fresh
        · exact .inl old
        · exact .inr (List.mem_cons.mpr (.inl (List.mem_singleton.mp fresh)))
      · exact .inl before
    · exact .inr (List.mem_cons_of_mem first later)

theorem checkSuspectTimeouts_gossips (pings : swim.PingsElsewhere) (iteration : Iteration)
    (nowMs : Int) : Gossiped Told swim (swim.checkSuspectTimeouts iteration nowMs).1 := by
  unfold checkSuspectTimeouts
  extract_lets timeout suspected retained timers
  have timed : Gossiped Told swim { swim with suspectedSinceMs := timers.1 } :=
    ⟨rfl, rfl, pings, .refl⟩
  apply timed.trans
  apply Gossiped.foldl timed.pings
  intro acc nodeId expired elsewhere self
  have listed : nodeId ∈ suspected := by
    rcases suspectTimer_subset timeout nowMs suspected (retained, []) expired with none | listed
    · cases none
    · exact listed
  have other : nodeId ≠ acc.1.localNodeId := by
    obtain ⟨register, kept, same⟩ := List.mem_map.mp listed
    obtain ⟨_, passes⟩ := List.mem_filter.mp kept
    simp only [ne_eq, decide_not, Bool.and_eq_true, Bool.not_eq_true',
      decide_eq_false_iff_not] at passes
    rw [← same, self]
    exact passes.1
  exact .write elsewhere (.offline nowMs other)

theorem probeCandidate_mem (swim : Swim) (nowU64 : Nat) (targets : List String)
    (best : Option String × Nat) {target : String}
    (chosen : (targets.foldl (swim.probeCandidate nowU64) best).1 = some target) :
    best.1 = some target ∨ target ∈ targets := by
  induction targets generalizing best with
  | nil => exact .inl chosen
  | cons first rest ih =>
    rcases ih _ chosen with before | later
    · unfold probeCandidate at before
      split at before
      · exact .inl before
      · dsimp only at before
        split at before
        · exact .inr (List.mem_cons.mpr (.inl (Option.some.inj before).symm))
        · exact .inl before
    · exact .inr (List.mem_cons_of_mem first later)

theorem sendPingTo_gossips (pings : swim.PingsElsewhere) {target : String}
    (other : target ≠ swim.localNodeId) (nowMs : Int) :
    Gossiped Told swim (swim.sendPingTo target nowMs).1 := by
  refine ⟨rfl, rfl, ?_, .refl⟩
  intro seq pending found
  unfold sendPingTo at found
  rw [Std.ExtTreeMap.getElem?_insert] at found
  split at found
  · cases found
    exact other
  · exact pings seq pending found

/-- The node itself is not among the targets of a probe. -/
theorem probed_elsewhere (swim : Swim) (nowU64 : Nat) {registers : List MemberRegister} {target : String}
    (chosen : (((registers.filter fun register => register.nodeId ≠ swim.localNodeId).map
      (·.nodeId)).foldl (swim.probeCandidate nowU64) (none, 0)).1 = some target) :
    target ≠ swim.localNodeId := by
  rcases probeCandidate_mem swim nowU64 _ (none, 0) chosen with none | listed
  · cases none
  · obtain ⟨register, kept, rfl⟩ := List.mem_map.mp listed
    exact of_decide_eq_true (List.mem_filter.mp kept).2

theorem generateProbes_gossips (pings : swim.PingsElsewhere) (iteration : Iteration) (nowU64 : Nat)
    (nowMs : Int) : Gossiped Told swim (swim.generateProbes iteration nowU64 nowMs).1 := by
  unfold generateProbes
  extract_lets active
  cases chosen : (active.foldl (swim.probeCandidate nowU64) (none, 0)).1 with
  | none => exact .refl pings
  | some target => exact sendPingTo_gossips pings (probed_elsewhere swim nowU64 chosen) nowMs

theorem tick_gossips (pings : swim.PingsElsewhere) (iteration : Iteration) (nowMs : Int) :
    Gossiped Told swim (swim.tick iteration nowMs).1 := by
  unfold tick
  extract_lets beaten timeouts suspects probes
  have beat : Gossiped Told swim beaten := .write pings (.heartbeat nowMs)
  have timed := beat.trans (checkTimeouts_gossips beat.pings iteration nowMs.toNat nowMs)
  have expired := timed.trans (checkSuspectTimeouts_gossips timed.pings iteration nowMs)
  exact expired.trans (generateProbes_gossips expired.pings iteration nowMs.toNat nowMs)

end Ticks

end Swim

end Lycoris.Cluster
