import Lycoris.Overlay.Queries

/-!
Growth only takes trust away. Uniqueness on either causal chain is lost and never regained, so a
record effective later was effective before, a conflict stays, and a status moves forward along
its predecessor chain or ends in a conflict.
-/

namespace Lycoris.Overlay
open Lib

namespace AuthorizationRegistry

variable {P : Primitives} {g g' : AuthorizationRegistry} {r s p c : AuthorizationRecord} {n : NodeId}

/-! ### Uniqueness in the larger registry -/

theorem Extends.roots_singleton (grown : Extends g g') (present : r ∈ g) (only : g'.roots n = [r]) :
    g.roots n = [r] := by
  obtain ⟨_, shape, sole⟩ := roots_eq_singleton.mp only
  exact roots_eq_singleton.mpr ⟨present, shape, fun s inside => sole s (grown.records s inside)⟩

theorem Extends.children_singleton (grown : Extends g g') {id : RecordId} (present : r ∈ g)
    (only : g'.children id = [r]) : g.children id = [r] := by
  obtain ⟨_, named, sole⟩ := children_eq_singleton.mp only
  exact children_eq_singleton.mpr ⟨present, named, fun s inside => sole s (grown.records s inside)⟩

theorem Extends.children_nil (grown : Extends g g') {id : RecordId} (none : g'.children id = []) :
    g.children id = [] :=
  children_eq_nil.mpr fun s inside => children_eq_nil.mp none s (grown.records s inside)

theorem Extends.actionSuccessors_singleton (grown : Extends g g') {identity action : RecordId}
    (present : r ∈ g) (only : g'.actionSuccessors identity action = [r]) :
    g.actionSuccessors identity action = [r] := by
  obtain ⟨_, acts, sole⟩ := actionSuccessors_eq_singleton.mp only
  exact actionSuccessors_eq_singleton.mpr
    ⟨present, acts, fun s inside => sole s (grown.records s inside)⟩

/-- The records a record of `g` names are in `g` already, whatever joined since. -/
theorem WellFormed.named_earlier (wf : WellFormed P g) (grown : Extends g g') (present : r ∈ g)
    (inside : s ∈ g') (named : s.id ∈ r.dependencies) : s ∈ g := by
  obtain ⟨t, member, same⟩ := (wf.accepted r present).dependency named
  rw [KeyedMap.eq_of_key inside (grown.records t member) same.symm]
  exact member

/-! ### Trust is lost, never gained -/

theorem Leads.shrink (wf : WellFormed P g) (grown : Extends g g') {identity current : RecordId}
    (h : Leads g' identity r.id current) (present : r ∈ g) :
    Leads g identity r.id current ∧ ∃ s ∈ g, s.id = current := by
  induction h with
  | last only here =>
    obtain ⟨inside, acts, _⟩ := actionSuccessors_eq_singleton.mp only
    cases KeyedMap.eq_of_key inside (grown.records r present) here
    exact ⟨.last (grown.actionSuccessors_singleton present only) rfl,
      (wf.accepted r present).dependency (actsAfter_dependency acts).2⟩
  | step only continues _ ih =>
    obtain ⟨rest, s, member, same⟩ := ih
    obtain ⟨inside, acts, _⟩ := actionSuccessors_eq_singleton.mp only
    cases KeyedMap.eq_of_key inside (grown.records s member) same.symm
    exact ⟨.step (grown.actionSuccessors_singleton member only) continues rest,
      (wf.accepted _ member).dependency (actsAfter_dependency acts).2⟩

theorem OnPath.shrink (wf : WellFormed P g) (grown : Extends g g') {identity : RecordId}
    (h : OnPath g' identity r.id) (present : r ∈ g) : OnPath g identity r.id :=
  h.imp_right fun leads => (leads.shrink wf grown present).1

theorem RetiresOnPath.shrink (wf : WellFormed P g) (grown : Extends g g') (h : RetiresOnPath g' r)
    (present : r ∈ g) : RetiresOnPath g r :=
  fun t retired => (h t retired).shrink wf grown present

/-- The record a judgement is about. -/
def Judgement.subject : Judgement → AuthorizationRecord
  | .effective r => r
  | .lineage r => r

theorem Trusts.shrink (wf : WellFormed P g) (grown : Extends g g') {j : Judgement} (h : Trusts g' j)
    (present : j.subject ∈ g) : Trusts g j := by
  induction h with
  | unsigned none retires => exact .unsigned none (retires.shrink wf grown present)
  | signed inside named path active _ retires ih =>
    have earlier := wf.named_earlier grown present inside (authorizer_dependency named)
    exact .signed earlier named (path.shrink wf grown present) active (ih earlier)
      (retires.shrink wf grown present)
  | root only _ ih => exact .root (grown.roots_singleton present only) (ih present)
  | child before only _ ihBefore ihSelf =>
    have named := predecessor_dependency (children_eq_singleton.mp only).2.1
    have earlier := wf.named_earlier grown present (EffectiveLineage.mem before) named
    exact .child (ihBefore earlier) (grown.children_singleton present only) (ihSelf present)

/-! ### Status -/

/-- A later lineage ends, within the earlier registry, at its own record or at a tip. -/
theorem EffectiveLineage.tip_within (wf : WellFormed P g) (wf' : WellFormed P g') (grown : Extends g g')
    (h : EffectiveLineage g' s) (known : ∃ r ∈ g, r.nodeId = s.nodeId) :
    s ∈ g ∨ ∃ u, Tip g s.nodeId u := by
  induction h using EffectiveLineage.induct with
  | root s only _ =>
    obtain ⟨r, present, node⟩ := known
    obtain ⟨root, inside, start, same, _⟩ := wf.exists_root present
    obtain ⟨_, _, sole⟩ := roots_eq_singleton.mp only
    exact Or.inl (sole root (grown.records root inside) (same.trans node) start ▸ inside)
  | child p s before only trusted ih =>
    by_cases inside : s ∈ g
    · exact Or.inl inside
    · rw [wf'.child_node (child_of_sole before.mem only)] at known ⊢
      rcases ih known with present | tip
      · -- `p` is the last of the lineage that `g` holds.
        refine Or.inr ⟨p, rfl, before.shrink wf grown present, children_eq_nil.mpr fun c member named => ?_⟩
        exact inside ((children_eq_singleton.mp only).2.2 c (grown.records c member) named ▸ member)
      · exact Or.inr tip

theorem Conflicted.grown (wf : WellFormed P g) (wf' : WellFormed P g') (grown : Extends g g')
    (h : Conflicted g n) : Conflicted g' n := by
  obtain ⟨⟨s, present, node⟩, stuck⟩ := (conflicted_iff wf).mp h
  refine (conflicted_iff wf').mpr ⟨⟨s, grown.records s present, node⟩, fun t tip => ?_⟩
  rcases tip.lineage.tip_within wf wf' grown ⟨s, present, node.trans tip.node.symm⟩ with inside | ⟨u, end'⟩
  · exact stuck t ⟨tip.node, tip.lineage.shrink wf grown inside, grown.children_nil tip.last⟩
  · exact stuck u (tip.node ▸ end')

theorem Settled.grown (wf : WellFormed P g) (wf' : WellFormed P g') (grown : Extends g g')
    (h : Settled g n r) :
    (∃ s, Settled g' n s ∧ (s = r ∨ Descends g' r s ∧ r.epoch < s.epoch)) ∨ Conflicted g' n := by
  have tip := (settled_iff wf).mp h
  have present := grown.records r tip.lineage.mem
  by_cases later : ∃ s, Tip g' n s
  · obtain ⟨s, tip'⟩ := later
    have path := tip'.descends wf' present tip.node
    refine Or.inl ⟨s, (settled_iff wf').mpr tip', ?_⟩
    rcases wf'.descends_epoch path with same | less
    · exact Or.inl same.symm
    · exact Or.inr ⟨path, less⟩
  · push Not at later
    exact Or.inr ((conflicted_iff wf').mpr ⟨⟨r, present, tip.node⟩, later⟩)

/-- Over any further calls a conflict stays, a settled status moves only down its predecessor
chain or into a conflict, and no record of the earlier registry gains effect. -/
theorem status_moves_forward (P : Primitives) (cluster : ClusterId) (calls more : List RegistryCall) :
    let g := (new cluster).replay P calls
    let g' := g.replay P more
    ∀ n,
      (Conflicted g n → Conflicted g' n) ∧
      (∀ r, Settled g n r →
        (∃ s, Settled g' n s ∧ (s = r ∨ Descends g' r s ∧ r.epoch < s.epoch)) ∨ Conflicted g' n) ∧
      (∀ r ∈ g, g'.recordIsEffective r = true → g.recordIsEffective r = true) := by
  intro g g' n
  have wf : WellFormed P g := wellFormed_replay cluster calls
  have later : Grows P (fun _ => True) g g' := replay_grows_any more
  have wf' := later.wellFormed wf
  have grown := later.extends
  refine ⟨Conflicted.grown wf wf' grown, fun r => Settled.grown wf wf' grown, fun r present effective => ?_⟩
  rw [recordIsEffective_iff wf' (grown.records r present)] at effective
  exact (recordIsEffective_iff wf present).mpr (effective.shrink wf grown present)

end AuthorizationRegistry

end Lycoris.Overlay
