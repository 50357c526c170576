import Lycoris.Cluster.Writes

/-!
What writes keep: the version moves with every change that the Merkle tree covers, whichever method of a
membership makes it, and incarnations that start at one or more stay there.
-/

namespace Lycoris.Cluster
open Lib

/-! ### Versions -/

/-- The version does not go back, and while it stands the hashed fields stand. -/
structure Tracks (m m' : Membership) : Prop where
  forward : m.version ≤ m'.version
  covered : m'.version = m.version → ∀ nodeId,
    (m'.get nodeId).map MemberRegister.hashedFields = (m.get nodeId).map MemberRegister.hashedFields

theorem Tracks.refl (m : Membership) : Tracks m m := ⟨Nat.le_refl _, fun _ _ => rfl⟩

theorem Tracks.trans {m m' m'' : Membership} (first : Tracks m m') (second : Tracks m' m'') :
    Tracks m m'' where
  forward := Nat.le_trans first.forward second.forward
  covered same nodeId := by
    have forward := first.forward
    have forward' := second.forward
    rw [second.covered (by omega) nodeId, first.covered (by omega) nodeId]

theorem Tracks.of_bump {m m' : Membership} (bump : m'.version = m.version + 1) : Tracks m m' where
  forward := by omega
  covered same := by omega

/-- Writing back a register with the same hashed fields. -/
theorem Tracks.of_store {m : Membership} {nodeId : String} {register changed : MemberRegister}
    (found : m.get nodeId = some register) (same : changed.hashedFields = register.hashedFields) :
    Tracks m (m.store changed m.version) where
  forward := Nat.le_refl _
  covered _ other := by
    have named : changed.nodeId = nodeId :=
      (congrArg HashedFields.nodeId same).trans (Membership.nodeId_of_get found)
    rw [Membership.get_store, named]
    by_cases here : nodeId = other
    · rw [if_pos here, ← here, found, Option.map_some, Option.map_some, same]
    · rw [if_neg here]

theorem tracks_transition (m : Membership) (nodeId : String)
    (change : MemberRegister → MemberRegister) : Tracks m (m.transition nodeId change).1 := by
  unfold Membership.transition
  split
  · exact .of_bump rfl
  · exact .refl m

theorem tracks_heartbeat (m : Membership) (nodeId : String) (nowMs : Int) :
    Tracks m (m.heartbeat nodeId nowMs).1 := by
  unfold Membership.heartbeat
  split
  · rename_i register found
    dsimp only
    by_cases same : (register.bumpHeartbeat nowMs).state = register.state
    · rw [if_neg (not_not.mpr same)]
      apply Tracks.of_store found
      rw [MemberRegister.hashedFields, same]
      rfl
    · rw [if_pos same]
      exact .of_bump rfl
  · exact .refl m

theorem tracks_suspect (m : Membership) (nodeId : String) (nowMs : Int) :
    Tracks m (m.suspect nodeId nowMs).1 := by
  unfold Membership.suspect
  split
  · rename_i register found
    dsimp only
    split
    · exact .of_bump rfl
    · rename_i unchanged
      apply Tracks.of_store found
      unfold MemberRegister.suspect at unchanged ⊢
      split
      · rename_i active
        rw [if_pos active] at unchanged
        exact absurd ⟨active, rfl⟩ unchanged
      · rfl
  · exact .refl m

section Writes

variable {self : String} {Told : MemberRegister → Prop} {m m' : Membership}

theorem Write.tracks (write : Write self Told m m') : Tracks m m' := by
  cases write with
  | gossip gossip =>
    cases gossip with
    | told _ _ => exact .of_bump rfl
    | suspicion _ _ _ _ => exact .of_bump rfl
    | departure _ _ _ _ => exact .of_bump rfl
    | suspect nowMs _ => exact tracks_suspect m _ nowMs
    | offline nowMs _ => exact tracks_transition m _ (·.offline nowMs)
    | heartbeat nowMs => exact tracks_heartbeat m self nowMs
    | refute nowMs _ _ => exact tracks_transition m self (·.refute nowMs)
  | leave nowMs => exact tracks_transition m self (·.leave nowMs)
  | annotate _ _ _ => exact .of_bump rfl

theorem Writes.tracks (writes : Writes self Told m m') : Tracks m m' := by
  induction writes with
  | refl => exact .refl m
  | tail _ write ih => exact ih.trans write.tracks

/-! ### Incarnations -/

/-- Every register carries an incarnation of one or more. -/
def Stamped (m : Membership) : Prop :=
  ∀ nodeId register, m.get nodeId = some register → 1 ≤ register.incarnation.toNat

theorem Stamped.mergeRegister {register : MemberRegister} (stamped : Stamped m)
    (positive : 1 ≤ register.incarnation.toNat) : Stamped (m.mergeRegister register) := by
  intro nodeId merged found
  by_cases here : register.nodeId = nodeId
  · rw [Membership.get_mergeRegister, if_pos here] at found
    cases existing : m.get nodeId with
    | none =>
      rw [existing] at found
      obtain rfl : register = merged := Option.some.inj found
      exact positive
    | some previous =>
      rw [existing] at found
      obtain rfl : previous.merge register = merged := Option.some.inj found
      have before := stamped nodeId previous existing
      unfold MemberRegister.merge
      split
      · exact positive
      · split
        · exact before
        · exact before
  · rw [Membership.get_mergeRegister_other here] at found
    exact stamped nodeId merged found

/-- Changes in place that do not lower an incarnation below one. -/
theorem Stamped.changed {nodeId : String} {change : MemberRegister → MemberRegister}
    (stamped : Stamped m)
    (read : ∀ other, m'.get other =
      if nodeId = other then (m.get other).map change else m.get other)
    (keeps : ∀ register, 1 ≤ register.incarnation.toNat → 1 ≤ (change register).incarnation.toNat) :
    Stamped m' := by
  intro other register found
  rw [read] at found
  split at found
  · obtain ⟨before, known, rfl⟩ := Option.map_eq_some_iff.mp found
    exact keeps before (stamped other before known)
  · exact stamped other register found

theorem Write.stamped (write : Write self Told m m')
    (told : ∀ register, Told register → 1 ≤ register.incarnation.toNat) (stamped : Stamped m) :
    Stamped m' := by
  have raised : ∀ {existing : MemberRegister} {incarnation : UInt64} {nodeId : String},
      m.get nodeId = some existing → existing.incarnation ≤ incarnation →
      1 ≤ incarnation.toNat := by
    intro existing incarnation nodeId found newer
    have before := stamped nodeId existing found
    have more := UInt64.le_iff_toNat_le.mp newer
    omega
  cases write with
  | gossip gossip =>
    cases gossip with
    | told _ known => exact stamped.mergeRegister (told _ known)
    | suspicion nowMs _ found newer =>
      apply stamped.mergeRegister
      unfold MemberRegister.suspect
      split
      · exact raised found newer
      · exact raised found newer
    | departure nowMs _ found newer => exact stamped.mergeRegister (raised found newer)
    | suspect nowMs _ =>
      apply stamped.changed (Membership.get_suspect m _ nowMs)
      intro register positive
      unfold MemberRegister.suspect
      split
      · exact positive
      · exact positive
    | offline nowMs _ =>
      exact stamped.changed (Membership.get_offline m _ nowMs) fun _ positive => positive
    | heartbeat nowMs =>
      exact stamped.changed (Membership.get_heartbeat m self nowMs) fun _ positive => positive
    | refute nowMs _ _ =>
      exact stamped.changed (Membership.get_refute m self nowMs) fun register _ =>
        saturatingSucc_pos register.incarnation
  | leave nowMs =>
    exact stamped.changed (Membership.get_leave m self nowMs) fun _ positive => positive
  | annotate annotations nowMs found =>
    have before := stamped self _ found
    exact stamped.mergeRegister before

theorem Writes.stamped (writes : Writes self Told m m')
    (told : ∀ register, Told register → 1 ≤ register.incarnation.toNat) (stamped : Stamped m) :
    Stamped m' := by
  induction writes with
  | refl => exact stamped
  | tail _ write ih => exact write.stamped told ih

end Writes

/-! ### Mutations -/

/-- The methods that change a membership. -/
inductive Mutation where
  | mergeRegister (register : MemberRegister)
  | merge (other : Membership) (order : HashOrder MemberRegister)
  | heartbeat (nodeId : String) (nowMs : Int)
  | suspect (nodeId : String) (nowMs : Int)
  | offline (nodeId : String) (nowMs : Int)
  | leave (nodeId : String) (nowMs : Int)
  | refute (nodeId : String) (nowMs : Int)

def Membership.mutate (membership : Membership) : Mutation → Membership
  | .mergeRegister register => membership.mergeRegister register
  | .merge other order => membership.merge other order
  | .heartbeat nodeId nowMs => (membership.heartbeat nodeId nowMs).1
  | .suspect nodeId nowMs => (membership.suspect nodeId nowMs).1
  | .offline nodeId nowMs => (membership.offline nodeId nowMs).1
  | .leave nodeId nowMs => (membership.leave nodeId nowMs).1
  | .refute nodeId nowMs => (membership.refute nodeId nowMs).1

theorem tracks_foldl_mergeRegister (registers : List MemberRegister) (membership : Membership) :
    Tracks membership (registers.foldl Membership.mergeRegister membership) := by
  induction registers generalizing membership with
  | nil => exact .refl membership
  | cons register rest ih =>
    have bumped : Tracks membership (membership.mergeRegister register) := .of_bump rfl
    exact bumped.trans (ih _)

theorem tracks_mutate (membership : Membership) (mutation : Mutation) :
    Tracks membership (membership.mutate mutation) := by
  cases mutation with
  | mergeRegister register => exact .of_bump rfl
  | merge other order => exact tracks_foldl_mergeRegister _ membership
  | heartbeat nodeId nowMs => exact tracks_heartbeat membership nodeId nowMs
  | suspect nodeId nowMs => exact tracks_suspect membership nodeId nowMs
  | offline nodeId nowMs => exact tracks_transition membership nodeId (·.offline nowMs)
  | leave nodeId nowMs => exact tracks_transition membership nodeId (·.leave nowMs)
  | refute nodeId nowMs => exact tracks_transition membership nodeId (·.refute nowMs)

/-- A mutation that changes a hashed field of any register advances the version. -/
theorem version_advances {membership : Membership} {mutation : Mutation} {nodeId : String}
    (changed : ((membership.mutate mutation).get nodeId).map MemberRegister.hashedFields ≠
      (membership.get nodeId).map MemberRegister.hashedFields) :
    membership.version < (membership.mutate mutation).version := by
  have tracks := tracks_mutate membership mutation
  apply Nat.lt_of_le_of_ne tracks.forward
  intro same
  exact changed (tracks.covered same.symm nodeId)

end Lycoris.Cluster
