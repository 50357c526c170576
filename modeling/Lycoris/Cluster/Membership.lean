import Lycoris.Cluster.Register

/-!
The membership CRDT: registers by node id (`membership/src/membership.rs`). Merging is folding
joins into a map, so a membership forgets the order and the repetition of what it was told.
-/

namespace Lycoris.Cluster
open Lib

/-- The registers by node id. `version` counts the writes that may change the Merkle tree; the
`u64` never runs out. -/
structure Membership where
  members : KeyedMap MemberRegister.nodeId
  version : Nat

namespace Membership

def new : Membership := ⟨.empty, 0⟩

def get (membership : Membership) (nodeId : String) : Option MemberRegister :=
  membership.members.get? nodeId

def mergeRegister (membership : Membership) (register : MemberRegister) : Membership where
  members := membership.members.joinIn MemberRegister.merge register
  version := membership.version + 1

/-- `order` is the order in which the other map hands out its registers. -/
def merge (membership other : Membership) (order : HashOrder MemberRegister) : Membership :=
  (other.members.iter order).foldl mergeRegister membership

def all (membership : Membership) (order : HashOrder MemberRegister) : List MemberRegister :=
  membership.members.iter order

def active (membership : Membership) (order : HashOrder MemberRegister) : List MemberRegister :=
  (membership.members.iter order).filter (·.state.isActive)

/-- Writes a register back in place, with the version the write leaves. -/
def store (membership : Membership) (register : MemberRegister) (version : Nat) : Membership :=
  ⟨membership.members.insert register, version⟩

def heartbeat (membership : Membership) (nodeId : String) (nowMs : Int) : Membership × Bool :=
  match membership.get nodeId with
  | some register =>
    let bumped := register.bumpHeartbeat nowMs
    (membership.store bumped
      (if bumped.state ≠ register.state then membership.version + 1 else membership.version), true)
  | none => (membership, false)

/-- The incarnation is returned when the state changed. -/
def suspect (membership : Membership) (nodeId : String) (nowMs : Int) :
    Membership × Option UInt64 :=
  match membership.get nodeId with
  | some register =>
    let suspected := register.suspect nowMs
    if register.state = .active ∧ suspected.state = .suspected then
      (membership.store suspected (membership.version + 1), some suspected.incarnation)
    else (membership.store suspected membership.version, none)
  | none => (membership, none)

/-- An unconditional change of a known register. -/
def transition (membership : Membership) (nodeId : String)
    (change : MemberRegister → MemberRegister) : Membership × Bool :=
  match membership.get nodeId with
  | some register => (membership.store (change register) (membership.version + 1), true)
  | none => (membership, false)

def offline (membership : Membership) (nodeId : String) (nowMs : Int) : Membership × Bool :=
  membership.transition nodeId (·.offline nowMs)

def leave (membership : Membership) (nodeId : String) (nowMs : Int) : Membership × Bool :=
  membership.transition nodeId (·.leave nowMs)

def refute (membership : Membership) (nodeId : String) (nowMs : Int) : Membership × Bool :=
  membership.transition nodeId (·.refute nowMs)

theorem get_mergeRegister (membership : Membership) (register : MemberRegister) (nodeId : String) :
    (membership.mergeRegister register).get nodeId =
      if register.nodeId = nodeId then
        some (KeyedMap.joined MemberRegister.merge (membership.get nodeId) register)
      else membership.get nodeId :=
  KeyedMap.get?_joinIn MemberRegister.merge_joins membership.members register nodeId

theorem get_mergeRegister_other {membership : Membership} {register : MemberRegister}
    {nodeId : String} (other : register.nodeId ≠ nodeId) :
    (membership.mergeRegister register).get nodeId = membership.get nodeId := by
  rw [get_mergeRegister, if_neg other]

theorem get_mergeRegister_known {membership : Membership} {register existing : MemberRegister}
    {nodeId : String} (named : register.nodeId = nodeId)
    (found : membership.get nodeId = some existing) :
    (membership.mergeRegister register).get nodeId = some (existing.merge register) := by
  rw [get_mergeRegister, if_pos named, found]
  rfl

theorem get_store (membership : Membership) (register : MemberRegister) (version : Nat)
    (nodeId : String) :
    (membership.store register version).get nodeId =
      if register.nodeId = nodeId then some register else membership.get nodeId :=
  KeyedMap.get?_insert membership.members register nodeId

theorem nodeId_of_get {membership : Membership} {nodeId : String} {register : MemberRegister}
    (found : membership.get nodeId = some register) : register.nodeId = nodeId :=
  KeyedMap.key_of_get? found

/-- Writing back a changed register changes what is read under its id and nothing else. -/
theorem get_store_changed {membership : Membership} {nodeId : String} {register : MemberRegister}
    (change : MemberRegister → MemberRegister) (found : membership.get nodeId = some register)
    (keeps : (change register).nodeId = register.nodeId) (version : Nat) (other : String) :
    (membership.store (change register) version).get other =
      if nodeId = other then (membership.get other).map change else membership.get other := by
  have keyed := nodeId_of_get found
  rw [get_store, keeps, keyed]
  by_cases same : nodeId = other
  · subst same
    rw [if_pos rfl, if_pos rfl, found, Option.map_some]
  · rw [if_neg same, if_neg same]

theorem get_missing {membership : Membership} {nodeId : String}
    (change : MemberRegister → MemberRegister) (missing : membership.get nodeId = none)
    (other : String) :
    membership.get other =
      if nodeId = other then (membership.get other).map change else membership.get other := by
  split
  · rename_i same
    rw [← same, missing, Option.map_none]
  · rfl

theorem nodeId_suspect (register : MemberRegister) (nowMs : Int) :
    (register.suspect nowMs).nodeId = register.nodeId := by
  unfold MemberRegister.suspect
  split <;> rfl

theorem get_heartbeat (membership : Membership) (nodeId : String) (nowMs : Int) (other : String) :
    (membership.heartbeat nodeId nowMs).1.get other =
      if nodeId = other then (membership.get other).map (·.bumpHeartbeat nowMs)
      else membership.get other := by
  unfold heartbeat
  split
  · rename_i found
    exact get_store_changed (·.bumpHeartbeat nowMs) found rfl _ other
  · rename_i missing
    exact get_missing _ missing other

theorem get_suspect (membership : Membership) (nodeId : String) (nowMs : Int) (other : String) :
    (membership.suspect nodeId nowMs).1.get other =
      if nodeId = other then (membership.get other).map (·.suspect nowMs)
      else membership.get other := by
  unfold suspect
  split
  · rename_i register found
    have stored := get_store_changed (·.suspect nowMs) found (nodeId_suspect register nowMs)
    dsimp only
    split
    · exact stored _ other
    · exact stored _ other
  · rename_i missing
    exact get_missing _ missing other

theorem get_transition (membership : Membership) (nodeId : String)
    (change : MemberRegister → MemberRegister) (keeps : ∀ r, (change r).nodeId = r.nodeId)
    (other : String) :
    (membership.transition nodeId change).1.get other =
      if nodeId = other then (membership.get other).map change else membership.get other := by
  unfold transition
  split
  · rename_i register found
    exact get_store_changed change found (keeps register) _ other
  · rename_i missing
    exact get_missing change missing other

theorem get_offline (membership : Membership) (nodeId : String) (nowMs : Int) (other : String) :
    (membership.offline nodeId nowMs).1.get other =
      if nodeId = other then (membership.get other).map (·.offline nowMs)
      else membership.get other :=
  get_transition membership nodeId (·.offline nowMs) (fun _ => rfl) other

theorem get_leave (membership : Membership) (nodeId : String) (nowMs : Int) (other : String) :
    (membership.leave nodeId nowMs).1.get other =
      if nodeId = other then (membership.get other).map (·.leave nowMs) else membership.get other :=
  get_transition membership nodeId (·.leave nowMs) (fun _ => rfl) other

theorem get_refute (membership : Membership) (nodeId : String) (nowMs : Int) (other : String) :
    (membership.refute nodeId nowMs).1.get other =
      if nodeId = other then (membership.get other).map (·.refute nowMs) else membership.get other :=
  get_transition membership nodeId (·.refute nowMs) (fun _ => rfl) other

end Membership

/-! ### Deliveries -/

/-- One register, or the registers of another membership in some order. -/
inductive Delivery where
  | register (register : MemberRegister)
  | view (other : Membership) (order : HashOrder MemberRegister)

def Delivery.registers : Delivery → List MemberRegister
  | register r => [r]
  | view other order => other.members.iter order

namespace Membership

def deliver (membership : Membership) : Delivery → Membership
  | .register r => membership.mergeRegister r
  | .view other order => membership.merge other order

def deliverAll (membership : Membership) (deliveries : List Delivery) : Membership :=
  deliveries.foldl deliver membership

theorem members_foldl_mergeRegister (registers : List MemberRegister) (membership : Membership) :
    (registers.foldl mergeRegister membership).members =
      registers.foldl (KeyedMap.joinIn MemberRegister.merge) membership.members := by
  induction registers generalizing membership with
  | nil => rfl
  | cons register rest ih => exact ih (membership.mergeRegister register)

theorem members_deliver (membership : Membership) (delivery : Delivery) :
    (membership.deliver delivery).members =
      delivery.registers.foldl (KeyedMap.joinIn MemberRegister.merge) membership.members := by
  cases delivery with
  | register r => rfl
  | view other order => exact members_foldl_mergeRegister (other.members.iter order) membership

theorem members_deliverAll (deliveries : List Delivery) (membership : Membership) :
    (membership.deliverAll deliveries).members =
      (deliveries.flatMap Delivery.registers).foldl (KeyedMap.joinIn MemberRegister.merge)
        membership.members := by
  induction deliveries generalizing membership with
  | nil => rfl
  | cons delivery rest ih =>
    rw [List.flatMap_cons, List.foldl_append, ← members_deliver]
    exact ih (membership.deliver delivery)

/-- Registers of one node merge as a semilattice, and a membership that receives the same registers
in any order, grouping and repetition ends with the same member map. -/
theorem membership_converges :
    (∀ a b : MemberRegister, a.nodeId = b.nodeId → a.merge b = b.merge a) ∧
    (∀ a b c : MemberRegister, a.nodeId = b.nodeId → b.nodeId = c.nodeId →
      (a.merge b).merge c = a.merge (b.merge c)) ∧
    (∀ a : MemberRegister, a.merge a = a) ∧
    ∀ (membership : Membership) (first second : List Delivery),
      (∀ register, (∃ delivery ∈ first, register ∈ delivery.registers) ↔
        ∃ delivery ∈ second, register ∈ delivery.registers) →
      (membership.deliverAll first).members = (membership.deliverAll second).members := by
  have laws := MemberRegister.merge_joins
  refine ⟨laws.comm, laws.assoc, laws.idem, ?_⟩
  intro membership first second same
  rw [members_deliverAll, members_deliverAll]
  apply KeyedMap.foldl_joinIn_eq laws
  intro register
  rw [List.mem_flatMap, List.mem_flatMap]
  exact same register

/-- Two registers of one node that tie on the order key. -/
def tiedHere : MemberRegister := .new "node" "127.0.0.1:1" 1 0
def tiedThere : MemberRegister := { tiedHere with address := "127.0.0.1:2", updatedAtMs := 5 }

theorem tied_registers_converge :
    tiedHere.merge tiedThere = tiedThere.merge tiedHere ∧
    (new.deliverAll [.register tiedHere, .register tiedThere]).members =
      (new.deliverAll [.register tiedThere, .register tiedHere, .register tiedThere]).members := by
  obtain ⟨comm, _, _, deliveries⟩ := membership_converges
  refine ⟨comm tiedHere tiedThere rfl, deliveries new _ _ ?_⟩
  intro register
  simp only [List.mem_cons, List.not_mem_nil, or_false, exists_eq_or_imp, exists_eq_left,
    Delivery.registers]
  tauto

end Membership

end Lycoris.Cluster
