import Lycoris.Overlay.Growth

/-!
The abstract reading of a registry. A record is trusted when the paths to it on both causal
chains are unique and its authorizer is itself reached by trusted records only; `Trusts` derives
these two judgements without reference to any loop. `Tip` is what a node's status stands for.
-/

namespace Lycoris.Overlay
open Lib

namespace AuthorizationRegistry

variable {P : Primitives} {g g' : AuthorizationRegistry} {r s p c : AuthorizationRecord} {n : NodeId}

theorem roots_eq_nil : g.roots n = [] ↔ ∀ s ∈ g, s.nodeId = n → s.predecessor ≠ none := by
  unfold roots
  rw [KeyedMap.filter_vals_eq_nil]
  refine forall₂_congr fun s _ => ?_
  cases s.predecessor <;> simp

theorem roots_eq_singleton : g.roots n = [r] ↔ r ∈ g ∧ (r.nodeId = n ∧ r.predecessor = none) ∧
    ∀ s ∈ g, s.nodeId = n → s.predecessor = none → s = r := by
  unfold roots
  rw [KeyedMap.filter_vals_eq_singleton]
  simp only [Bool.and_eq_true, decide_eq_true_eq, Option.isNone_iff_eq_none, and_imp]
  rfl

theorem children_eq_nil {id : RecordId} : g.children id = [] ↔ ∀ s ∈ g, s.predecessor ≠ some id := by
  unfold children
  rw [KeyedMap.filter_vals_eq_nil]
  simp only [decide_eq_false_iff_not]
  rfl

theorem children_eq_singleton {id : RecordId} : g.children id = [c] ↔
    c ∈ g ∧ c.predecessor = some id ∧ ∀ s ∈ g, s.predecessor = some id → s = c := by
  unfold children
  rw [KeyedMap.filter_vals_eq_singleton]
  simp only [decide_eq_true_eq]
  rfl

theorem actionSuccessors_eq_nil {identity action : RecordId} :
    g.actionSuccessors identity action = [] ↔ ∀ s ∈ g, actsAfter identity action s = false :=
  KeyedMap.filter_vals_eq_nil

theorem actionSuccessors_eq_singleton {identity action : RecordId} :
    g.actionSuccessors identity action = [r] ↔
      r ∈ g ∧ actsAfter identity action r = true ∧ ∀ s ∈ g, actsAfter identity action s = true → s = r :=
  KeyedMap.filter_vals_eq_singleton

theorem actsAfter_iff {identity action : RecordId} : actsAfter identity action r = true ↔
    (r.authorizer = some identity ∧ r.authorizationPredecessor = some action) ∨
      r.retires = some ⟨identity, action⟩ := by
  unfold actsAfter
  simp only [Bool.or_eq_true, Bool.and_eq_true, decide_eq_true_eq]
  refine or_congr_right ?_
  cases r.retires with
  | none => simp
  | some t => obtain ⟨i, a⟩ := t; simp

theorem actsAfter_dependency {identity action : RecordId} (acts : actsAfter identity action r = true) :
    identity ∈ r.dependencies ∧ action ∈ r.dependencies := by
  rcases actsAfter_iff.mp acts with ⟨signer, after⟩ | retired
  · simp [AuthorizationRecord.dependencies, signer, after]
  · simp [AuthorizationRecord.dependencies, retired]

theorem predecessor_dependency {id : RecordId} (named : r.predecessor = some id) :
    id ∈ r.dependencies := by
  simp [AuthorizationRecord.dependencies, named]

theorem authorizer_dependency {id : RecordId} (named : r.authorizer = some id) :
    id ∈ r.dependencies := by
  simp [AuthorizationRecord.dependencies, named]

/-! ### Trust -/

/-- Following the only action after `current` on `identity`'s chain leads to `target`, with no
terminating record on the way. -/
inductive Leads (g : AuthorizationRegistry) (identity target : RecordId) : RecordId → Prop where
  | last {current : RecordId} {next : AuthorizationRecord}
      (only : g.actionSuccessors identity current = [next]) (here : next.id = target) :
      Leads g identity target current
  | step {current : RecordId} {next : AuthorizationRecord}
      (only : g.actionSuccessors identity current = [next])
      (continues : terminatesIdentity next identity = false)
      (rest : Leads g identity target next.id) : Leads g identity target current

def OnPath (g : AuthorizationRegistry) (identity target : RecordId) : Prop :=
  identity = target ∨ Leads g identity target identity

/-- The retired chain, where the record retires one, reaches the record as well. -/
def RetiresOnPath (g : AuthorizationRegistry) (r : AuthorizationRecord) : Prop :=
  ∀ t, r.retires = some t → OnPath g t.identity r.id

inductive Judgement where
  | effective (record : AuthorizationRecord)
  | lineage (record : AuthorizationRecord)

inductive Trusts (g : AuthorizationRegistry) : Judgement → Prop where
  | unsigned {r : AuthorizationRecord} (none : r.authorizer = none) (retires : RetiresOnPath g r) :
      Trusts g (.effective r)
  | signed {r a : AuthorizationRecord} (present : a ∈ g) (named : r.authorizer = some a.id)
      (path : OnPath g a.id r.id) (active : a.state = .active) (trusted : Trusts g (.lineage a))
      (retires : RetiresOnPath g r) : Trusts g (.effective r)
  | root {r : AuthorizationRecord} (only : g.roots r.nodeId = [r]) (trusted : Trusts g (.effective r)) :
      Trusts g (.lineage r)
  | child {p r : AuthorizationRecord} (before : Trusts g (.lineage p)) (only : g.children p.id = [r])
      (trusted : Trusts g (.effective r)) : Trusts g (.lineage r)

abbrev Effective (g : AuthorizationRegistry) (r : AuthorizationRecord) : Prop := Trusts g (.effective r)

/-- The walk from the only root of the node along only children, all effective, reaches `r`. -/
abbrev EffectiveLineage (g : AuthorizationRegistry) (r : AuthorizationRecord) : Prop :=
  Trusts g (.lineage r)

/-- The end of an effective lineage. -/
structure Tip (g : AuthorizationRegistry) (n : NodeId) (r : AuthorizationRecord) : Prop where
  node : r.nodeId = n
  lineage : EffectiveLineage g r
  last : g.children r.id = []

theorem EffectiveLineage.effective (h : EffectiveLineage g r) : Effective g r := by
  cases h with
  | root _ trusted => exact trusted
  | child _ _ trusted => exact trusted

theorem EffectiveLineage.mem (h : EffectiveLineage g r) : r ∈ g := by
  cases h with
  | root only _ => exact (roots_eq_singleton.mp only).1
  | child _ only _ => exact (children_eq_singleton.mp only).1

/-! ### Predecessor chains -/

structure Child (g : AuthorizationRegistry) (p c : AuthorizationRecord) : Prop where
  parent : p ∈ g
  child : c ∈ g
  named : c.predecessor = some p.id

/-- `s` is `r` or comes after it on the predecessor chain. -/
abbrev Descends (g : AuthorizationRegistry) : AuthorizationRecord → AuthorizationRecord → Prop :=
  Relation.ReflTransGen (Child g)

theorem Child.parent_eq (first : Child g p c) (second : Child g s c) : p = s :=
  KeyedMap.eq_of_key first.parent second.parent
    (Option.some.inj (first.named.symm.trans second.named))

theorem Child.sole (h : Child g p c) (only : g.children p.id = [r]) : c = r :=
  (children_eq_singleton.mp only).2.2 c h.child h.named

theorem WellFormed.child_node (wf : WellFormed P g) (h : Child g p c) : c.nodeId = p.nodeId := by
  have same : ∀ q, q ∈ g → c.predecessor = some q.id → q = p := fun q present named =>
    (Child.parent_eq ⟨present, h.child, named⟩ h)
  cases (wf.accepted c h.child).succession with
  | admission root => exact absurd (root.symm.trans h.named) (by simp)
  | rotation q present named node => exact node ▸ (congrArg _ (same q present named))
  | retirement q head present named node => exact node ▸ (congrArg _ (same q present named))

theorem WellFormed.child_epoch (wf : WellFormed P g) (h : Child g p c) : p.epoch < c.epoch := by
  have advance : ∀ q, q ∈ g → c.predecessor = some q.id → checkedSucc q.epoch = some c.epoch →
      p.epoch < c.epoch := by
    intro q present named epoch
    rw [Child.parent_eq ⟨present, h.child, named⟩ h] at epoch
    unfold checkedSucc at epoch
    split at epoch
    · rename_i room
      have equal := Option.some.inj epoch
      rw [← equal, UInt64.lt_iff_toNat_lt, UInt64.toNat_add, UInt64.toNat_one,
        Nat.mod_eq_of_lt room]
      omega
    · cases epoch
  cases (wf.accepted c h.child).succession with
  | admission root => exact absurd (root.symm.trans h.named) (by simp)
  | rotation q present named _ epoch => exact advance q present named epoch
  | retirement q head present named _ epoch => exact advance q present named epoch

theorem Ranking.child {rank : RecordId → Nat} (ranked : Ranking g rank) (h : Child g p c) :
    rank p.id < rank c.id :=
  ranked.after c h.child p.id (predecessor_dependency h.named)

theorem descends_rank {rank : RecordId → Nat} (ranked : Ranking g rank) (h : Descends g r s) :
    r = s ∨ rank r.id < rank s.id := by
  induction h with
  | refl => exact Or.inl rfl
  | tail _ step ih =>
    rcases ih with rfl | less
    · exact Or.inr (ranked.child step)
    · exact Or.inr (less.trans (ranked.child step))

theorem WellFormed.descends_epoch (wf : WellFormed P g) (h : Descends g r s) :
    r = s ∨ r.epoch < s.epoch := by
  induction h with
  | refl => exact Or.inl rfl
  | tail _ step ih =>
    rcases ih with rfl | less
    · exact Or.inr (wf.child_epoch step)
    · exact Or.inr (UInt64.lt_trans less (wf.child_epoch step))

theorem Descends.mem (h : Descends g r s) (present : s ∈ g) : r ∈ g := by
  induction h using Relation.ReflTransGen.head_induction_on with
  | refl => exact present
  | head step _ _ => exact step.parent

/-- A record has a parent in the registry unless it starts its lineage. -/
theorem WellFormed.parent (wf : WellFormed P g) (present : r ∈ g) :
    r.predecessor = none ∨ ∃ p, Child g p r := by
  cases (wf.accepted r present).succession with
  | admission root => exact Or.inl root
  | rotation p inside named => exact Or.inr ⟨p, inside, present, named⟩
  | retirement p head inside named => exact Or.inr ⟨p, inside, present, named⟩

theorem WellFormed.exists_root (wf : WellFormed P g) (present : r ∈ g) :
    ∃ root ∈ g, root.predecessor = none ∧ root.nodeId = r.nodeId ∧ Descends g root r := by
  obtain ⟨rank, ranked⟩ := wf.ranked
  induction hn : rank r.id using Nat.strong_induction_on generalizing r with
  | _ n ih =>
    subst hn
    rcases wf.parent present with start | ⟨p, step⟩
    · exact ⟨r, present, start, rfl, .refl⟩
    · obtain ⟨root, inside, start, node, path⟩ := ih _ (ranked.child step) step.parent rfl
      exact ⟨root, inside, start, node.trans (wf.child_node step).symm, path.tail step⟩

theorem WellFormed.roots_nil (wf : WellFormed P g) : g.roots n = [] ↔ ∀ s ∈ g, s.nodeId ≠ n := by
  rw [roots_eq_nil]
  constructor
  · rintro none s present rfl
    obtain ⟨root, inside, start, node, _⟩ := wf.exists_root present
    exact none root inside node start
  · intro none s present node
    exact absurd node (none s present)

/-! ### Effective lineages are linear -/

@[elab_as_elim]
theorem EffectiveLineage.induct {motive : ∀ r, EffectiveLineage g r → Prop}
    (root : ∀ r (only : g.roots r.nodeId = [r]) (trusted : Effective g r),
      motive r (.root only trusted))
    (child : ∀ p r (before : EffectiveLineage g p) (only : g.children p.id = [r])
      (trusted : Effective g r), motive p before → motive r (.child before only trusted))
    {r : AuthorizationRecord} (h : EffectiveLineage g r) : motive r h := by
  have general : ∀ j, Trusts g j → ∀ r (h : EffectiveLineage g r), j = .lineage r → motive r h := by
    intro j derivation
    induction derivation with
    | unsigned => intro r _ same; cases same
    | signed => intro r _ same; cases same
    | root only trusted => intro r _ same; cases same; exact root _ only trusted
    | child before only trusted ih _ =>
      intro r _ same
      cases same
      exact child _ _ before only trusted (ih _ before rfl)
  exact general _ h r h rfl

theorem EffectiveLineage.descends (h : EffectiveLineage g s) (path : Descends g r s) :
    EffectiveLineage g r ∧ (r ≠ s → ∃ c, g.children r.id = [c]) := by
  induction h using EffectiveLineage.induct with
  | root s only trusted =>
    rcases path.cases_tail with same | ⟨p, _, step⟩
    · exact ⟨same ▸ .root only trusted, fun differ => absurd same.symm differ⟩
    · exact absurd (step.named.symm.trans (roots_eq_singleton.mp only).2.1.2) (by simp)
  | child p s before only trusted ih =>
    rcases path.cases_tail with same | ⟨q, walk, step⟩
    · exact ⟨same ▸ .child before only trusted, fun differ => absurd same.symm differ⟩
    · have same : q = p := Child.parent_eq step
        ⟨EffectiveLineage.mem before, step.child, (children_eq_singleton.mp only).2.1⟩
      subst same
      obtain ⟨lineage, more⟩ := ih walk
      refine ⟨lineage, fun _ => ?_⟩
      by_cases equal : r = q
      · exact ⟨s, equal ▸ only⟩
      · exact more equal

theorem child_of_sole (before : p ∈ g) (only : g.children p.id = [r]) : Child g p r :=
  ⟨before, (children_eq_singleton.mp only).1, (children_eq_singleton.mp only).2.1⟩

theorem EffectiveLineage.sole_root (wf : WellFormed P g) (h : EffectiveLineage g s) :
    ∃ root, g.roots s.nodeId = [root] := by
  induction h using EffectiveLineage.induct with
  | root s only _ => exact ⟨s, only⟩
  | child p s before only _ ih =>
    rw [wf.child_node (child_of_sole before.mem only)]
    exact ih

/-- Any record of the node is on the predecessor chain of an effective one, or after it. -/
theorem EffectiveLineage.comparable (wf : WellFormed P g) (h : EffectiveLineage g s) (present : r ∈ g)
    (node : r.nodeId = s.nodeId) : Descends g r s ∨ Descends g s r := by
  induction h using EffectiveLineage.induct with
  | root s only _ =>
    obtain ⟨root, inside, start, same, path⟩ := wf.exists_root present
    rw [(roots_eq_singleton.mp only).2.2 root inside (same.trans node) start] at path
    exact Or.inr path
  | child p s before only _ ih =>
    have step := child_of_sole before.mem only
    rcases ih (node.trans (wf.child_node step)) with up | down
    · exact Or.inl (up.tail step)
    · rcases down.cases_head with same | ⟨c, first, rest⟩
      · exact Or.inl (same ▸ .single step)
      · exact Or.inr (first.sole only ▸ rest)

theorem Tip.descends (wf : WellFormed P g) (tip : Tip g n s) (present : r ∈ g) (node : r.nodeId = n) :
    Descends g r s := by
  rcases tip.lineage.comparable wf present (node.trans tip.node.symm) with up | down
  · exact up
  · rcases down.cases_head with same | ⟨c, first, _⟩
    · exact same ▸ .refl
    · exact absurd first.named (children_eq_nil.mp tip.last c first.child)

theorem Tip.unique (wf : WellFormed P g) (left : Tip g n r) (right : Tip g n s) : r = s := by
  obtain ⟨rank, ranked⟩ := wf.ranked
  have forward := descends_rank ranked (right.descends wf left.lineage.mem left.node)
  have backward := descends_rank ranked (left.descends wf right.lineage.mem right.node)
  rcases forward with same | less
  · exact same
  · rcases backward with same | greater
    · exact same.symm
    · omega

end AuthorizationRegistry

end Lycoris.Overlay
