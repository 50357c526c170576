import Lycoris.Cluster.Forward
import Lycoris.Daemon.Membership
import Lycoris.Daemon.Sequence

/-!
The incarnation of a node over its restarts (`daemon/src/runtime.rs`, `daemon/src/membership/service.rs`).
A boot takes the next incarnation after the persisted one, so it starts above the lives before it exactly
if the last of them was persisted.
-/

namespace Lycoris.Daemon
open Lib Cluster

/-- What a boot of the node finds: its configuration, and a meta table that may not answer. -/
structure Boot where
  address : String
  labels : StringMap
  annotations : StringMap
  metaReadable : Bool
  env : Circumstances

/-- The lives of a node: the service of the current one, and the incarnations of the local register after
each boot and call, newest first. -/
structure Lives where
  service : MembershipService
  incarnations : List UInt64

inductive LifeStep where
  /-- A crash inside a call is the call up to there, with a hook that does not write. -/
  | call (call : ServiceCall) (env : Circumstances)
  /-- A crash, and the boot of the next process. -/
  | restart (boot : Boot)

variable (blake3 : Bytes → Hash)

/-- The runtime up to the membership service. -/
def bootNode (nodeId : String) (table : StringMap) (boot : Boot) : MembershipService :=
  let resumed := (persistedCounter boot.metaReadable table localIncarnationKey).getD 0
  let rejoined := (MemberRegister.new nodeId boot.address resumed 0).rejoin boot.address boot.env.nowMs
  let written :=
    if boot.env.metaWritable then
      table.insert localIncarnationKey (toString rejoined.incarnation.toNat)
    else table
  .boot blake3 nodeId boot.address resumed boot.labels boot.annotations written boot.env

def MembershipService.own (service : MembershipService) : Option MemberRegister :=
  service.swim.membership.get service.localNodeId

namespace Lives

def enter (service : MembershipService) (incarnations : List UInt64) : Lives :=
  ⟨service, (service.own.map (·.incarnation)).toList ++ incarnations⟩

def boot (nodeId : String) (table : StringMap) (first : Boot) : Lives :=
  enter (bootNode blake3 nodeId table first) []

def table (lives : Lives) : StringMap := lives.service.metaTable.getD ∅

def step (lives : Lives) : LifeStep → Lives
  | .call call env => enter (lives.service.step blake3 env call) lives.incarnations
  | .restart boot => enter (bootNode blake3 lives.service.localNodeId lives.table boot) lives.incarnations

/-- The boot starts above every incarnation of the lives before it, and its register dominates every
register of theirs. -/
def StartsAbove (lives : Lives) : LifeStep → Prop
  | .call _ _ => True
  | .restart boot => ∃ own, (lives.step blake3 (.restart boot)).service.own = some own ∧
      own.state = .active ∧ (∀ earlier ∈ lives.incarnations, earlier < own.incarnation) ∧
      ∀ held : MemberRegister, (∃ earlier ∈ lives.incarnations, held.incarnation ≤ earlier) →
        own.dominates held = true

/-- The boot reads an incarnation no less than the one the crash ended, which is not the last one. -/
def Persisted (lives : Lives) : LifeStep → Prop
  | .call _ _ => True
  | .restart boot => ∃ own last, lives.service.own = some own ∧
      persistedCounter boot.metaReadable lives.table localIncarnationKey = some last ∧
      own.incarnation ≤ last ∧ own.incarnation.toNat < 2 ^ 64 - 1

/-- Every access to the meta table succeeds, and the incarnations are not used up. -/
def Working (lives : Lives) : LifeStep → Prop
  | .call _ env => env.metaWritable = true
  | .restart boot => boot.metaReadable = true ∧ boot.env.metaWritable = true ∧
      ∃ own, lives.service.own = some own ∧ own.incarnation.toNat < 2 ^ 64 - 1

end Lives

/-! ### The register of a boot -/

variable {blake3}

variable (blake3) in
theorem own_bootNode (nodeId : String) (table : StringMap) (boot : Boot) :
    ∃ own, (bootNode blake3 nodeId table boot).own = some own ∧ own.state = .active ∧
      own.incarnation =
        saturatingSucc ((persistedCounter boot.metaReadable table localIncarnationKey).getD 0) := by
  exact ⟨_, Swim.get_new nodeId .default rfl, rfl, rfl⟩

/-! ### The register during a life -/

/-- The service knows itself, and never probes itself. -/
structure Rooted (service : MembershipService) (own : MemberRegister) : Prop where
  named : service.swim.localNodeId = service.localNodeId
  pings : service.swim.PingsElsewhere
  found : service.own = some own

theorem rooted_bootNode {nodeId : String} {table : StringMap} {boot : Boot} {own : MemberRegister}
    (found : (bootNode blake3 nodeId table boot).own = some own) :
    Rooted (bootNode blake3 nodeId table boot) own :=
  ⟨rfl, (Swim.new_owned nodeId .default rfl rfl).1, found⟩

variable (blake3) in
theorem Rooted.step {service : MembershipService} {own : MemberRegister} (rooted : Rooted service own)
    (call : ServiceCall) (env : Circumstances) :
    ∃ own', Rooted (service.step blake3 env call) own' ∧ own.incarnation ≤ own'.incarnation := by
  by_cases query : call = .merkleTree
  · subst query
    refine ⟨own, ?_, UInt64.le_refl _⟩
    simp only [MembershipService.step, MembershipService.merkleTree]
    split
    · exact ⟨rooted.named, rooted.pings, rooted.found⟩
    · exact rooted
  · have through := MembershipService.step_advances blake3 rooted.pings rooted.named env query
    have found := rooted.found
    rw [MembershipService.own, ← rooted.named] at found
    obtain ⟨own', found', later⟩ := through.swim.writes.incarnation found
    refine ⟨own', ⟨?_, through.swim.pings, ?_⟩, later⟩
    · rw [through.swim.self, through.named, rooted.named]
    · rw [MembershipService.own, through.named, ← rooted.named, found']

namespace Lives

variable {lives : Lives} {action : LifeStep}

/-- The local register has the greatest of the incarnations so far. -/
structure Settled (lives : Lives) (own : MemberRegister) : Prop extends Rooted lives.service own where
  entered : own.incarnation ∈ lives.incarnations
  greatest : ∀ earlier ∈ lives.incarnations, earlier ≤ own.incarnation
  positive : own.incarnation ≠ 0

theorem settled_enter {service : MembershipService} {own : MemberRegister} {incarnations : List UInt64}
    (rooted : Rooted service own) (greatest : ∀ earlier ∈ incarnations, earlier ≤ own.incarnation)
    (positive : own.incarnation ≠ 0) : Settled (enter service incarnations) own := by
  have entered : (enter service incarnations).incarnations = own.incarnation :: incarnations := by
    simp [enter, rooted.found]
  refine ⟨rooted, ?_, ?_, positive⟩
  · rw [entered]
    exact List.mem_cons_self
  · rw [entered]
    exact List.forall_mem_cons.mpr ⟨UInt64.le_refl _, greatest⟩

variable (blake3) in
theorem settled_boot (nodeId : String) (table : StringMap) (first : Boot) :
    ∃ own, Settled (boot blake3 nodeId table first) own := by
  obtain ⟨own, found, -, next⟩ := own_bootNode blake3 nodeId table first
  exact ⟨own, settled_enter (rooted_bootNode found) (List.forall_mem_nil _)
    (next ▸ saturatingSucc_ne_zero _)⟩

theorem Settled.step {own : MemberRegister} (settled : Settled lives own)
    (above : lives.StartsAbove blake3 action) : ∃ own', Settled (lives.step blake3 action) own' := by
  cases action with
  | call call env =>
    obtain ⟨own', rooted, later⟩ := settled.toRooted.step blake3 call env
    refine ⟨own', settled_enter rooted ?_ ?_⟩
    · exact fun earlier member => UInt64.le_trans (settled.greatest earlier member) later
    · intro zero
      rw [zero] at later
      exact settled.positive (UInt64.le_zero_iff.mp later)
  | restart boot =>
    obtain ⟨own', found, -, greater, -⟩ := above
    refine ⟨own', settled_enter (rooted_bootNode found) ?_ ?_⟩
    · exact fun earlier member => UInt64.le_of_lt (greater earlier member)
    · intro zero
      have above := greater _ settled.entered
      rw [zero] at above
      exact UInt64.not_lt_zero above

/-- A boot starts above the lives before it exactly if the last one was persisted. -/
theorem Settled.startsAbove_iff {own : MemberRegister} (settled : Settled lives own) :
    lives.StartsAbove blake3 action ↔ lives.Persisted action := by
  cases action with
  | call call env => exact Iff.rfl
  | restart boot =>
    obtain ⟨own', found, active, next⟩ :=
      own_bootNode blake3 lives.service.localNodeId lives.table boot
    constructor
    · rintro ⟨_, found', -, greater, -⟩
      obtain rfl := Option.some.inj (found.symm.trans found')
      have above := UInt64.lt_iff_toNat_lt.mp (greater _ settled.entered)
      cases read : persistedCounter boot.metaReadable lives.table localIncarnationKey with
      | none =>
        -- A node that finds nothing starts at 1, and no incarnation is smaller.
        have one : own'.incarnation = 1 := by rw [next, read]; decide
        rw [one] at above
        have zero : own.incarnation.toNat = 0 := Nat.lt_one_iff.mp above
        exact absurd (UInt64.toNat_inj.mp zero) settled.positive
      | some last =>
        have resumed := saturatingSucc_toNat last
        rw [read, Option.getD_some] at next
        rw [← next] at resumed
        refine ⟨own, last, settled.found, read, ?_, ?_⟩
        · rw [UInt64.le_iff_toNat_le]
          omega
        · omega
    · rintro ⟨_, last, found', read, covered, notLast⟩
      obtain rfl := Option.some.inj (settled.found.symm.trans found')
      have resumed := saturatingSucc_toNat last
      rw [read, Option.getD_some] at next
      rw [← next] at resumed
      have greater : ∀ earlier ∈ lives.incarnations, earlier < own'.incarnation := by
        intro earlier member
        have below := UInt64.le_iff_toNat_le.mp (settled.greatest earlier member)
        rw [UInt64.le_iff_toNat_le] at covered
        rw [UInt64.lt_iff_toNat_lt]
        omega
      refine ⟨own', found, active, greater, ?_⟩
      rintro held ⟨earlier, member, atMost⟩
      exact MemberRegister.dominates_of_incarnation (UInt64.lt_of_le_of_lt atMost (greater earlier member))

end Lives

/-! ### The persist hook -/

/-- The table is at the incarnation that the service takes for persisted. -/
def Recorded (service : MembershipService) : Prop :=
  ∃ table, service.metaTable = some table ∧
    persistedCounter true table localIncarnationKey = some service.persistedIncarnation

theorem own_persist (service : MembershipService) (metaWritable : Bool) :
    (service.persistLocalIncarnation metaWritable).own = service.own := by
  obtain ⟨named, swim, -⟩ := MembershipService.persist_frame service metaWritable
  rw [MembershipService.own, named, swim]
  rfl

/-- The hook does nothing when the incarnation looks persisted. -/
theorem persist_current {service : MembershipService} {own : MemberRegister} (found : service.own = some own)
    (current : service.persistedIncarnation = own.incarnation) (metaWritable : Bool) :
    service.persistLocalIncarnation metaWritable = service := by
  rw [MembershipService.own] at found
  unfold MembershipService.persistLocalIncarnation
  rw [found]
  cases service.metaTable with
  | none => rfl
  | some table => exact if_pos current.symm

/-- The hook brings a table that takes writes up to the local register. -/
theorem Recorded.persist {service : MembershipService} {own : MemberRegister} (recorded : Recorded service)
    (found : service.own = some own) :
    Recorded (service.persistLocalIncarnation true) ∧
      (service.persistLocalIncarnation true).persistedIncarnation = own.incarnation := by
  obtain ⟨table, held, read⟩ := recorded
  rw [MembershipService.own] at found
  unfold MembershipService.persistLocalIncarnation
  simp only [held, found, if_true]
  split
  · rename_i same
    exact ⟨⟨table, held, read⟩, same.symm⟩
  · exact ⟨⟨_, rfl, persistedCounter_insert _ _ _⟩, rfl⟩

theorem syncNodes_meta (nowMs : Int) (registers : List MemberRegister)
    (acc : MembershipService × List SwimAction) :
    (registers.foldl (MembershipService.syncNode nowMs) acc).1.metaTable = acc.1.metaTable ∧
      (registers.foldl (MembershipService.syncNode nowMs) acc).1.persistedIncarnation =
        acc.1.persistedIncarnation := by
  induction registers generalizing acc with
  | nil => exact ⟨rfl, rfl⟩
  | cons register rest ih =>
    obtain ⟨table, persisted⟩ := ih (MembershipService.syncNode nowMs acc register)
    exact ⟨table, persisted⟩

variable (blake3) in
/-- Every call ends in the hook, unless it leaves the local register as it was. -/
theorem step_hooked (service : MembershipService) (env : Circumstances) (call : ServiceCall) :
    ∃ inner, (Recorded service → Recorded inner) ∧ (service.step blake3 env call = inner ∧
        inner.own = service.own ∧ inner.persistedIncarnation = service.persistedIncarnation ∨
      service.step blake3 env call = inner.persistLocalIncarnation env.metaWritable) := by
  cases call with
  | register register =>
    refine ⟨_, ?_, .inr rfl⟩
    exact id
  | leave nodeId =>
    refine ⟨_, ?_, .inr rfl⟩
    split
    · exact id
    · exact id
  | updateLocalAnnotations annotations =>
    simp only [MembershipService.step, MembershipService.updateLocalAnnotations]
    split
    · exact ⟨service, id, .inl ⟨rfl, rfl, rfl⟩⟩
    · split
      · exact ⟨service, id, .inl ⟨rfl, rfl, rfl⟩⟩
      · refine ⟨_, ?_, .inr rfl⟩
        exact id
  | syncNodes registers =>
    obtain ⟨table, persisted⟩ := syncNodes_meta env.nowMs registers (service, [])
    refine ⟨_, ?_, .inr rfl⟩
    intro recorded
    rw [Recorded, table, persisted]
    exact recorded
  | merkleTree =>
    refine ⟨(service.merkleTree blake3 env.iteration.members).1, ?_, .inl ⟨rfl, ?_, ?_⟩⟩
    all_goals
      unfold MembershipService.merkleTree
      dsimp only
      split
    · exact id
    · exact id
    · rfl
    · rfl
    · rfl
    · rfl
  | onProbe sender message =>
    refine ⟨_, ?_, .inr rfl⟩
    exact id
  | tick =>
    refine ⟨_, ?_, .inr rfl⟩
    exact id

namespace Lives

variable {lives : Lives} {action : LifeStep}

/-- The table is at the incarnation of the local register. -/
structure Synced (lives : Lives) (own : MemberRegister) : Prop extends Settled lives own where
  recorded : Recorded lives.service
  current : lives.service.persistedIncarnation = own.incarnation

theorem Synced.read {own : MemberRegister} (synced : Synced lives own) :
    persistedCounter true lives.table localIncarnationKey = some own.incarnation := by
  obtain ⟨_, held, read⟩ := synced.recorded
  rw [table, held, Option.getD_some, read, synced.current]

theorem Synced.persisted {own : MemberRegister} (synced : Synced lives own)
    (working : lives.Working action) : lives.Persisted action := by
  cases action with
  | call call env => trivial
  | restart boot =>
    obtain ⟨readable, -, _, found, notLast⟩ := working
    obtain rfl := Option.some.inj (synced.found.symm.trans found)
    refine ⟨own, own.incarnation, found, ?_, UInt64.le_refl _, notLast⟩
    rw [readable]
    exact synced.read

/-- The service takes the incarnation of its boot for persisted. -/
theorem current_bootNode {nodeId : String} {table : StringMap} {boot : Boot} {own : MemberRegister}
    (found : (bootNode blake3 nodeId table boot).own = some own) :
    (bootNode blake3 nodeId table boot).persistedIncarnation = own.incarnation := by
  show ((bootNode blake3 nodeId table boot).own.map (·.incarnation)).getD 1 = own.incarnation
  rw [found]
  rfl

/-- A boot whose write succeeds leaves the table at its incarnation. -/
theorem recorded_bootNode {nodeId : String} {table : StringMap} {boot : Boot} {own : MemberRegister}
    (writable : boot.env.metaWritable = true) (found : (bootNode blake3 nodeId table boot).own = some own) :
    Recorded (bootNode blake3 nodeId table boot) ∧
      (bootNode blake3 nodeId table boot).persistedIncarnation = own.incarnation := by
  have current := current_bootNode found
  obtain ⟨_, found', -, next⟩ := own_bootNode blake3 nodeId table boot
  obtain rfl := Option.some.inj (found.symm.trans found')
  refine ⟨⟨_, rfl, ?_⟩, current⟩
  rw [current, next, if_pos writable]
  exact persistedCounter_insert _ _ _

theorem Synced.step {own : MemberRegister} (synced : Synced lives own)
    (working : lives.Working action) : ∃ own', Synced (lives.step blake3 action) own' := by
  have above : lives.StartsAbove blake3 action := synced.startsAbove_iff.mpr (synced.persisted working)
  obtain ⟨own', settled⟩ := synced.toSettled.step above
  suffices kept : Recorded (lives.step blake3 action).service ∧
      (lives.step blake3 action).service.persistedIncarnation = own'.incarnation from
    ⟨own', settled, kept.1, kept.2⟩
  have found := settled.found
  cases action with
  | call call env =>
    obtain ⟨inner, recorded, ⟨same, own, persisted⟩ | hooked⟩ := step_hooked blake3 lives.service env call
    · simp only [step, enter, same] at found ⊢
      obtain rfl := Option.some.inj (synced.found.symm.trans (own.symm.trans found))
      exact ⟨recorded synced.recorded, persisted.trans synced.current⟩
    · simp only [step, enter, hooked, own_persist] at found ⊢
      rw [show env.metaWritable = true from working]
      exact (recorded synced.recorded).persist found
  | restart boot =>
    obtain ⟨-, writable, -⟩ := working
    exact recorded_bootNode writable found

end Lives

/-- The boots of a node start above the lives before them exactly if each finds the last incarnation
persisted, and so in every run in which the accesses to the meta table succeed. -/
theorem restarts_start_above_iff (blake3 : Bytes → Hash) (nodeId : String) (table : StringMap) (first : Boot)
    (actions : List LifeStep) :
    (Steps (Lives.step blake3) (Lives.StartsAbove blake3) (.boot blake3 nodeId table first) actions ↔
      Steps (Lives.step blake3) Lives.Persisted (.boot blake3 nodeId table first) actions) ∧
    (first.env.metaWritable = true →
      Steps (Lives.step blake3) Lives.Working (.boot blake3 nodeId table first) actions →
      Steps (Lives.step blake3) Lives.Persisted (.boot blake3 nodeId table first) actions) := by
  obtain ⟨own, settled⟩ := Lives.settled_boot blake3 nodeId table first
  refine ⟨⟨?_, ?_⟩, fun writable => ?_⟩
  · refine Steps.mono (fun lives => ∃ own, lives.Settled own) ⟨own, settled⟩ ?_ ?_
    · rintro lives action ⟨own, settled⟩ above
      exact settled.step above
    · rintro lives action ⟨own, settled⟩ above
      exact settled.startsAbove_iff.mp above
  · refine Steps.mono (fun lives => ∃ own, lives.Settled own) ⟨own, settled⟩ ?_ ?_
    · rintro lives action ⟨own, settled⟩ persisted
      exact settled.step (settled.startsAbove_iff.mpr persisted)
    · rintro lives action ⟨own, settled⟩ persisted
      exact settled.startsAbove_iff.mpr persisted
  · obtain ⟨recorded, current⟩ := Lives.recorded_bootNode writable settled.found
    refine Steps.mono (fun lives => ∃ own, lives.Synced own) ⟨own, settled, recorded, current⟩ ?_ ?_
    · rintro lives action ⟨own, synced⟩ working
      exact synced.step working
    · rintro lives action ⟨own, synced⟩ working
      exact synced.persisted working

/-! ### Boots with and without their write -/

def sampleBoot (metaWritable : Bool) : Boot where
  address := "127.0.0.1:1"
  labels := ∅
  annotations := ∅
  metaReadable := true
  env := ⟨1, ⟨.sorted _, .sorted _⟩, metaWritable⟩

def sampleEnvironment : Circumstances := ⟨2, ⟨.sorted _, .sorted _⟩, true⟩

/-- A life that refutes a rumor, with a table that works. -/
theorem refuted_life_starts_above :
    Steps (Lives.step sampleBlake3) (Lives.StartsAbove sampleBlake3)
      (.boot sampleBlake3 "node" ∅ (sampleBoot true))
      [.call (.onProbe "peer" (.suspect "node" 1)) sampleEnvironment, .restart (sampleBoot true)] := by
  have spec := restarts_start_above_iff sampleBlake3 "node" ∅ (sampleBoot true)
    [.call (.onProbe "peer" (.suspect "node" 1)) sampleEnvironment, .restart (sampleBoot true)]
  have refuted : ((Lives.boot sampleBlake3 "node" ∅ (sampleBoot true)).step sampleBlake3
      (.call (.onProbe "peer" (.suspect "node" 1)) sampleEnvironment)).service.own.map (·.incarnation) =
        some 2 := by
    simp only [Lives.step, Lives.enter, MembershipService.step, MembershipService.onProbe, own_persist]
    decide
  obtain ⟨own, found, two⟩ := Option.map_eq_some_iff.mp refuted
  refine spec.1.mpr (spec.2 rfl ⟨rfl, ⟨rfl, rfl, own, found, ?_⟩, trivial⟩)
  rw [two]
  decide

/-- The table takes writes again when the hook runs, and the hook has nothing to write. -/
def sampleLives : List LifeStep :=
  [.call (.onProbe "peer" (.ping 1)) sampleEnvironment, .restart (sampleBoot true)]

theorem first_incarnation_reused :
    ¬ ∃ blake3, Steps (Lives.step blake3) (Lives.StartsAbove blake3)
      (.boot blake3 "node" ∅ (sampleBoot false)) sampleLives := by
  rintro ⟨blake3, -, above, -⟩
  obtain ⟨own, settled⟩ := Lives.settled_boot blake3 "node" ∅ (sampleBoot false)
  obtain ⟨own', settled'⟩ : ∃ own', Lives.Settled (Lives.step blake3
      (.boot blake3 "node" ∅ (sampleBoot false)) (.call (.onProbe "peer" (.ping 1)) sampleEnvironment)) own' :=
    settled.step trivial
  obtain ⟨_, last, -, read, -⟩ := settled'.startsAbove_iff.mp above
  have unchanged : (Lives.step blake3 (.boot blake3 "node" ∅ (sampleBoot false))
      (.call (.onProbe "peer" (.ping 1)) sampleEnvironment)).service =
        bootNode blake3 "node" ∅ (sampleBoot false) :=
    persist_current settled.found (Lives.current_bootNode settled.found) true
  rw [Lives.table, unchanged] at read
  cases read

end Lycoris.Daemon
