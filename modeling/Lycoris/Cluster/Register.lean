import Lycoris.Lib.Join

/-!
The replicated register of one cluster member and its merge (`membership/src/register.rs`).
-/

namespace Lycoris.Cluster
open Lib

abbrev StringMap := Std.ExtTreeMap String String compare

inductive MemberState where
  | active | suspected | leaving | offline
  deriving DecidableEq

namespace MemberState

def isActive (state : MemberState) : Bool := state = .active || state = .suspected

def asU8 : MemberState → UInt8
  | active => 0
  | suspected => 1
  | leaving => 2
  | offline => 3

def rank (state : MemberState) : UInt8 := state.asU8

theorem rank_injective : Function.Injective fun state : MemberState => state.rank.toNat := by
  intro s t same
  cases s <;> cases t <;> first | rfl | exact absurd same (by decide)

end MemberState

/-- `u64::saturating_add(1)`. -/
def saturatingSucc (n : UInt64) : UInt64 := if n = UInt64.ofNat (2 ^ 64 - 1) then n else n + 1

theorem saturatingSucc_toNat (n : UInt64) :
    (saturatingSucc n).toNat = min (n.toNat + 1) (2 ^ 64 - 1) := by
  have bound := n.toNat_lt
  have full : (UInt64.ofNat (2 ^ 64 - 1)).toNat = 2 ^ 64 - 1 := by decide
  unfold saturatingSucc
  by_cases last : n = UInt64.ofNat (2 ^ 64 - 1)
  · rw [if_pos last, last, full]
    omega
  · have below : n.toNat ≠ 2 ^ 64 - 1 := fun same => last (UInt64.toNat_inj.mp (same.trans full.symm))
    rw [if_neg last, UInt64.toNat_add]
    have one : (1 : UInt64).toNat = 1 := rfl
    rw [one, Nat.mod_eq_of_lt (by omega)]
    omega

theorem saturatingSucc_pos (n : UInt64) : 1 ≤ (saturatingSucc n).toNat := by
  rw [saturatingSucc_toNat]
  omega

/-- A member's register. Clock readings are unbounded integers: only their order is used. -/
structure MemberRegister where
  nodeId : String
  address : String
  state : MemberState
  incarnation : UInt64
  heartbeat : UInt64
  labels : StringMap
  annotations : StringMap
  updatedAtMs : Int
  deriving DecidableEq

/-- The entries of a map, in lexicographic order with each entry compared key first. -/
def Entries : Type := List (String ×ₗ String)

instance : LinearOrder Entries := inferInstanceAs (LinearOrder (List (String ×ₗ String)))

def sortedEntries (map : StringMap) : Entries := map.toList.map toLex

def canonicalMapCmp (a b : StringMap) : Ordering := cmp (sortedEntries a) (sortedEntries b)

namespace MemberRegister

def new (nodeId address : String) (incarnation heartbeat : UInt64) : MemberRegister where
  nodeId := nodeId
  address := address
  state := .active
  incarnation := incarnation
  heartbeat := heartbeat
  labels := ∅
  annotations := ∅
  updatedAtMs := 0

def orderKey (register : MemberRegister) : ℕ ×ₗ ℕ ×ₗ ℕ :=
  toLex (register.incarnation.toNat, toLex (register.state.rank.toNat, register.heartbeat.toNat))

def dominates (self other : MemberRegister) : Bool := other.orderKey < self.orderKey

/-- The field by field resolution of two registers with equal order keys. -/
def mergeMetadata (self other : MemberRegister) : MemberRegister :=
  { self with
    address := if other.address > self.address then other.address else self.address
    labels := if canonicalMapCmp other.labels self.labels = .gt then other.labels else self.labels
    annotations :=
      if canonicalMapCmp other.annotations self.annotations = .gt then other.annotations
      else self.annotations
    updatedAtMs := max self.updatedAtMs other.updatedAtMs }

def merge (self other : MemberRegister) : MemberRegister :=
  if other.dominates self then other
  else if self.dominates other then self
  else self.mergeMetadata other

def bumpHeartbeat (register : MemberRegister) (nowMs : Int) : MemberRegister :=
  { register with
    heartbeat := saturatingSucc register.heartbeat
    state := if register.state = .active ∨ register.state = .suspected then .active else register.state
    updatedAtMs := nowMs }

def suspect (register : MemberRegister) (nowMs : Int) : MemberRegister :=
  if register.state = .active then
    { register with
      state := .suspected
      heartbeat := saturatingSucc register.heartbeat
      updatedAtMs := nowMs }
  else register

def leave (register : MemberRegister) (nowMs : Int) : MemberRegister :=
  { register with
    state := .leaving
    heartbeat := saturatingSucc register.heartbeat
    updatedAtMs := nowMs }

def offline (register : MemberRegister) (nowMs : Int) : MemberRegister :=
  { register with
    state := .offline
    heartbeat := saturatingSucc register.heartbeat
    updatedAtMs := nowMs }

def rejoin (register : MemberRegister) (address : String) (nowMs : Int) : MemberRegister :=
  { register with
    incarnation := saturatingSucc register.incarnation
    heartbeat := 0
    address := address
    state := .active
    updatedAtMs := nowMs }

def refute (register : MemberRegister) (nowMs : Int) : MemberRegister :=
  { register with
    incarnation := saturatingSucc register.incarnation
    heartbeat := saturatingSucc register.heartbeat
    state := .active
    updatedAtMs := nowMs }

end MemberRegister

/-- The part of a register that its Merkle hash covers: all but heartbeat and clock. -/
structure HashedFields where
  nodeId : String
  address : String
  state : MemberState
  incarnation : UInt64
  labels : StringMap
  annotations : StringMap
  deriving DecidableEq

def MemberRegister.hashedFields (register : MemberRegister) : HashedFields where
  nodeId := register.nodeId
  address := register.address
  state := register.state
  incarnation := register.incarnation
  labels := register.labels
  annotations := register.annotations

/-! ### The order key -/

theorem sortedEntries_injective : Function.Injective sortedEntries := by
  intro a b same
  have lists := List.map_injective_iff.mpr toLex.injective same
  exact Std.ExtTreeMap.toList_inj.mp lists

theorem canonicalMapCmp_gt {a b : StringMap} :
    canonicalMapCmp a b = .gt ↔ sortedEntries b < sortedEntries a :=
  cmp_eq_gt_iff _ _

namespace MemberRegister

theorem dominates_iff {self other : MemberRegister} :
    self.dominates other = true ↔ other.orderKey < self.orderKey := decide_eq_true_iff

theorem orderKey_inj {a b : MemberRegister} :
    a.orderKey = b.orderKey ↔
      a.incarnation = b.incarnation ∧ a.state = b.state ∧ a.heartbeat = b.heartbeat := by
  constructor
  · intro same
    have parts := toLex_inj.mp same
    have inner := toLex_inj.mp (Prod.mk.inj parts).2
    exact ⟨UInt64.toNat_inj.mp (Prod.mk.inj parts).1,
      MemberState.rank_injective (Prod.mk.inj inner).1, UInt64.toNat_inj.mp (Prod.mk.inj inner).2⟩
  · rintro ⟨incarnation, state, heartbeat⟩
    rw [orderKey, orderKey, incarnation, state, heartbeat]

/-- The lexicographic order of the keys, read field by field. -/
theorem orderKey_lt {a b : MemberRegister} :
    a.orderKey < b.orderKey ↔
      a.incarnation.toNat < b.incarnation.toNat ∨ a.incarnation.toNat = b.incarnation.toNat ∧
        (a.state.rank.toNat < b.state.rank.toNat ∨ a.state.rank.toNat = b.state.rank.toNat ∧
          a.heartbeat.toNat < b.heartbeat.toNat) := by
  rw [orderKey, orderKey, Prod.Lex.toLex_lt_toLex, Prod.Lex.toLex_lt_toLex]

/-! ### The merge is a join -/

theorem merge_eq_lexJoin : merge = lexJoin orderKey mergeMetadata := by
  funext self other
  simp only [merge, lexJoin, dominates_iff]

theorem mergeMetadata_eq (self other : MemberRegister) :
    self.mergeMetadata other =
      { self with
        address := larger id self.address other.address
        labels := larger sortedEntries self.labels other.labels
        annotations := larger sortedEntries self.annotations other.annotations
        updatedAtMs := larger id self.updatedAtMs other.updatedAtMs } := by
  have clock : max self.updatedAtMs other.updatedAtMs =
      larger id self.updatedAtMs other.updatedAtMs := (measure_larger id _ _).symm
  simp only [mergeMetadata, larger, canonicalMapCmp_gt, gt_iff_lt, id_eq, clock]

theorem mergeMetadata_joins :
    JoinsByKey (fun register => (register.nodeId, register.orderKey)) mergeMetadata where
  keeps _ _ _ := rfl
  comm a b same := by
    obtain ⟨nodeId, key⟩ := Prod.mk.inj same
    obtain ⟨incarnation, state, heartbeat⟩ := orderKey_inj.mp key
    simp only [mergeMetadata_eq, nodeId, incarnation, state, heartbeat,
      larger_comm Function.injective_id a.address, larger_comm Function.injective_id a.updatedAtMs,
      larger_comm sortedEntries_injective a.labels,
      larger_comm sortedEntries_injective a.annotations]
  assoc a b c _ _ := by
    simp only [mergeMetadata_eq, larger_assoc Function.injective_id,
      larger_assoc sortedEntries_injective]
  idem a := by
    simp only [mergeMetadata_eq, larger_self]

/-- Among the registers of one node, merging is a semilattice operation. -/
theorem merge_joins : JoinsByKey nodeId merge := by
  rw [merge_eq_lexJoin]
  exact lexJoin_joins mergeMetadata_joins

theorem merge_of_dominated {self other : MemberRegister} (less : self.orderKey < other.orderKey) :
    self.merge other = other := by
  rw [merge_eq_lexJoin]
  exact lexJoin_of_lt less

theorem merge_of_dominating {self other : MemberRegister} (greater : other.orderKey < self.orderKey) :
    self.merge other = self := by
  rw [merge_eq_lexJoin]
  exact lexJoin_of_gt greater

theorem merge_of_equal {self other : MemberRegister} (equal : self.orderKey = other.orderKey) :
    self.merge other = self.mergeMetadata other := by
  rw [merge_eq_lexJoin]
  exact lexJoin_of_eq equal

end MemberRegister

end Lycoris.Cluster
