import Lycoris.Overlay.Monotone

/-!
What an identity's key can still authorize. The records that act through an identity and have
effect lie on one chain, each the only action after the one before; a record that ends the
identity ends the chain, and what is off the chain stands behind no node's status. A record on the
chain may itself lack effect, through another chain it acts on.
-/

namespace Lycoris.Overlay
open Lib

namespace AuthorizationRegistry

variable {P : Primitives} {g : AuthorizationRegistry} {r s k t : AuthorizationRecord} {n : NodeId}

/-- `r` is authorized by `identity` or retires it. -/
def ActsThrough (identity : RecordId) (r : AuthorizationRecord) : Prop :=
  r.authorizer = some identity ∨ ∃ head, r.retires = some ⟨identity, head⟩

/-- `s` is the only action after `r`, which does not end the identity. -/
def Follows (g : AuthorizationRegistry) (identity : RecordId) (r s : AuthorizationRecord) : Prop :=
  g.actionSuccessors identity r.id = [s] ∧ terminatesIdentity r identity = false

/-- The actions of `k` in order, as far as each is the only one after the one before. -/
structure ActionChain (g : AuthorizationRegistry) (k : AuthorizationRecord)
    (chain : List AuthorizationRecord) : Prop where
  linked : List.IsChain (Follows g k.id) (k :: chain)
  reached : ∀ target, Leads g k.id target k.id → ∃ r ∈ chain, r.id = target

/-! ### Following the only action -/

theorem Follows.mem {identity : RecordId} (h : Follows g identity r s) : s ∈ g :=
  (actionSuccessors_eq_singleton.mp h.1).1

theorem Follows.rank {rank : RecordId → Nat} (ranked : Ranking g rank) {identity : RecordId}
    (h : Follows g identity r s) : rank r.id < rank s.id := by
  obtain ⟨inside, acts, _⟩ := actionSuccessors_eq_singleton.mp h.1
  exact ranked.after s inside r.id (actsAfter_dependency acts).2

theorem exists_linked {rank : RecordId → Nat} (ranked : Ranking g rank) {identity : RecordId}
    (present : r ∈ g) (continues : terminatesIdentity r identity = false) :
    ∃ chain, List.IsChain (Follows g identity) (r :: chain) ∧
      ∀ target, Leads g identity target r.id → ∃ s ∈ chain, s.id = target := by
  induction hn : g.records.size - rank r.id using Nat.strong_induction_on generalizing r with
  | _ m ih =>
    subst hn
    by_cases single : ∃ s, g.actionSuccessors identity r.id = [s]
    · obtain ⟨s, only⟩ := single
      have step : Follows g identity r s := ⟨only, continues⟩
      by_cases ends : terminatesIdentity s identity = true
      · refine ⟨[s], by simpa using step, fun target leads => ?_⟩
        rcases leads.inv only with here | ⟨open', _⟩
        · exact ⟨s, List.mem_singleton_self s, here⟩
        · rw [ends] at open'
          cases open'
      · have less := step.rank ranked
        have bound := ranked.bounded s step.mem
        obtain ⟨rest, linked, reached⟩ := ih _ (by omega) step.mem (by simpa using ends) rfl
        refine ⟨s :: rest, List.isChain_cons_cons.mpr ⟨step, linked⟩, fun target leads => ?_⟩
        rcases leads.inv only with here | ⟨_, more⟩
        · exact ⟨s, List.mem_cons_self, here⟩
        · obtain ⟨u, member, same⟩ := reached target more
          exact ⟨u, List.mem_cons_of_mem _ member, same⟩
    · push Not at single
      refine ⟨[], by simp, fun target leads => ?_⟩
      cases leads with
      | last only _ => exact absurd only (single _)
      | step only _ _ => exact absurd only (single _)

theorem terminates_actsThrough {identity : RecordId} (h : terminatesIdentity r identity = true) :
    ActsThrough identity r := by
  unfold terminatesIdentity at h
  simp only [Bool.or_eq_true, Bool.and_eq_true, decide_eq_true_eq] at h
  rcases h with ⟨_, signer⟩ | retired
  · exact Or.inl signer
  · cases named : r.retires with
    | none => simp [named] at retired
    | some u =>
      have same : u.identity = identity := by simpa [named] using retired
      exact Or.inr ⟨u.actionHead, by rw [named, ← same]⟩

theorem ActsThrough.dependency {identity : RecordId} (h : ActsThrough identity r) :
    identity ∈ r.dependencies := by
  rcases h with signer | ⟨head, retired⟩
  · exact authorizer_dependency signer
  · simp [AuthorizationRecord.dependencies, retired]

theorem Ranking.not_self {rank : RecordId → Nat} (ranked : Ranking g rank) (present : k ∈ g) :
    ¬ ActsThrough k.id k :=
  fun acts => lt_irrefl _ (ranked.after k present k.id acts.dependency)

theorem WellFormed.exists_actionChain (wf : WellFormed P g) (present : k ∈ g) :
    ∃ chain, ActionChain g k chain := by
  obtain ⟨rank, ranked⟩ := wf.ranked
  have continues : terminatesIdentity k k.id = false := by
    by_contra ends
    exact ranked.not_self present (terminates_actsThrough (by simpa using ends))
  obtain ⟨chain, linked, reached⟩ := exists_linked ranked present continues
  exact ⟨chain, linked, reached⟩

/-! ### Effective actions are on the chain -/

theorem Effective.leads (wf : WellFormed P g) (present : r ∈ g) (inside : k ∈ g)
    (acts : ActsThrough k.id r) (trusted : Effective g r) : Leads g k.id r.id k.id := by
  obtain ⟨rank, ranked⟩ := wf.ranked
  have path : OnPath g k.id r.id := by
    obtain ⟨signed, retires⟩ := (effective_iff wf present).mp trusted
    rcases acts with signer | ⟨head, retired⟩
    · exact (signed k inside signer).1
    · exact retires _ retired
  rcases path with same | leads
  · cases KeyedMap.eq_of_key inside present same
    exact absurd acts (ranked.not_self inside)
  · exact leads

theorem ActionChain.effective_mem {chain : List AuthorizationRecord} (wf : WellFormed P g)
    (h : ActionChain g k chain) (inside : k ∈ g) (members : ∀ s ∈ chain, s ∈ g) (present : r ∈ g)
    (acts : ActsThrough k.id r) (trusted : Effective g r) : r ∈ chain := by
  obtain ⟨s, member, same⟩ := h.reached r.id (trusted.leads wf present inside acts)
  exact KeyedMap.eq_of_key (members s member) present same ▸ member

section Linked

variable {identity : RecordId} {start : AuthorizationRecord} {chain : List AuthorizationRecord}

theorem linked_mem (linked : List.IsChain (Follows g identity) (start :: chain)) : ∀ s ∈ chain, s ∈ g := by
  induction chain generalizing start with
  | nil => simp
  | cons c rest ih =>
    obtain ⟨step, linked⟩ := List.isChain_cons_cons.mp linked
    intro s member
    rcases List.mem_cons.mp member with rfl | later
    · exact step.mem
    · exact ih linked s later

theorem linked_rank {rank : RecordId → Nat} (ranked : Ranking g rank)
    (linked : List.IsChain (Follows g identity) (start :: chain)) :
    (start :: chain).Pairwise fun r s => rank r.id < rank s.id :=
  have : IsTrans AuthorizationRecord fun r s => rank r.id < rank s.id := ⟨fun _ _ _ => Nat.lt_trans⟩
  List.isChain_iff_pairwise.mp (linked.imp fun _ _ step => step.rank ranked)

/-- An element that is not last has its successor on the chain. -/
theorem linked_next {rank : RecordId → Nat} (ranked : Ranking g rank)
    (linked : List.IsChain (Follows g identity) (start :: chain)) {e : AuthorizationRecord}
    (member : e ∈ start :: chain) (later : ∃ s ∈ chain, rank e.id < rank s.id) :
    ∃ s ∈ chain, Follows g identity e s := by
  induction chain generalizing start with
  | nil => simp at later
  | cons c rest ih =>
    obtain ⟨step, linked'⟩ := List.isChain_cons_cons.mp linked
    rcases List.mem_cons.mp member with rfl | deeper
    · exact ⟨c, List.mem_cons_self, step⟩
    · obtain ⟨s, inside, less⟩ := later
      rcases List.mem_cons.mp inside with rfl | behind
      · -- `e` comes after `s`, the head of the rest, or is it.
        rcases List.mem_cons.mp deeper with rfl | after
        · exact absurd less (lt_irrefl _)
        · have := (List.pairwise_cons.mp (linked_rank ranked linked')).1 e after
          omega
      · obtain ⟨u, here, follows⟩ := ih linked' deeper ⟨s, behind, less⟩
        exact ⟨u, List.mem_cons_of_mem _ here, follows⟩

theorem linked_terminal (linked : List.IsChain (Follows g identity) (start :: chain))
    (member : t ∈ start :: chain) (ends : terminatesIdentity t identity = true) :
    (start :: chain).getLast? = some t := by
  induction chain generalizing start with
  | nil => simpa using (List.mem_singleton.mp member).symm
  | cons c rest ih =>
    obtain ⟨step, linked'⟩ := List.isChain_cons_cons.mp linked
    rcases List.mem_cons.mp member with rfl | deeper
    · rw [step.2] at ends
      cases ends
    · rw [List.getLast?_cons_cons]
      exact ih linked' deeper

end Linked

/-! ### What is off the chain -/

theorem WellFormed.action_head (wf : WellFormed P g) (inside : k ∈ g) (present : r ∈ g)
    {action : RecordId} (acts : actsAfter k.id action r = true) : ActionOf g k.id action := by
  rcases actsAfter_iff.mp acts with ⟨signer, after⟩ | retired
  · cases (wf.accepted r present).signer with
    | own unsigned => exact absurd (unsigned.symm.trans signer) (by simp)
    | authorizer a head member named after' owned =>
      cases KeyedMap.eq_of_key inside member (Option.some.inj (signer.symm.trans named))
      cases Option.some.inj (after.symm.trans after')
      exact owned
  · cases (wf.accepted r present).succession with
    | admission _ _ _ _ none => exact absurd (none.symm.trans retired) (by simp)
    | rotation _ _ _ _ _ _ _ _ none => exact absurd (none.symm.trans retired) (by simp)
    | retirement p head _ _ _ _ _ retired' owned =>
      obtain ⟨same, equal⟩ := RetiredAuthorization.mk.inj (Option.some.inj (retired.symm.trans retired'))
      rw [same, equal]
      exact owned

theorem WellFormed.acts_after (wf : WellFormed P g) (present : r ∈ g) {identity : RecordId}
    (acts : ActsThrough identity r) : ∃ action, actsAfter identity action r = true := by
  rcases acts with signer | ⟨head, retired⟩
  · cases (wf.accepted r present).signer with
    | own unsigned => exact absurd (unsigned.symm.trans signer) (by simp)
    | authorizer a head _ _ after => exact ⟨head, actsAfter_iff.mpr (Or.inl ⟨signer, after⟩)⟩
  · exact ⟨head, actsAfter_iff.mpr (Or.inr retired)⟩

/-- Every action older than some element of the chain is on the chain, and so is the action it
comes after. -/
theorem ActionChain.older_mem {chain : List AuthorizationRecord} {rank : RecordId → Nat}
    (wf : WellFormed P g) (ranked : Ranking g rank) (h : ActionChain g k chain) (inside : k ∈ g)
    (present : r ∈ g) {action : RecordId} (acts : actsAfter k.id action r = true)
    (later : ∃ s ∈ chain, rank r.id ≤ rank s.id) :
    ∃ e ∈ k :: chain, e.id = action ∧ Follows g k.id e r := by
  induction hn : rank r.id using Nat.strong_induction_on generalizing r action with
  | _ m ih =>
    subst hn
    have older := ranked.after r present action (actsAfter_dependency acts).2
    obtain ⟨s, member, low⟩ := later
    -- The action before `r` is `k` itself or, by induction, on the chain.
    have before : ∃ e ∈ k :: chain, e.id = action := by
      rcases wf.action_head inside present acts with same | ⟨b, there, same, signer⟩
      · exact ⟨k, List.mem_cons_self, same.symm⟩
      · subst same
        obtain ⟨head, acts'⟩ := wf.acts_after there (Or.inl signer)
        obtain ⟨e, listed, _, follows⟩ := ih _ older there acts' ⟨s, member, by omega⟩ rfl
        obtain ⟨u, onChain, next⟩ := linked_next ranked h.linked listed
          ⟨s, member, (follows.rank ranked).trans_le (by omega)⟩
        have same : u = b := by
          have equal := next.1.symm.trans follows.1
          simpa using equal
        exact ⟨u, List.mem_cons_of_mem _ onChain, by rw [same]⟩
    obtain ⟨e, listed, same⟩ := before
    subst same
    obtain ⟨u, _, next⟩ := linked_next ranked h.linked listed ⟨s, member, by omega⟩
    have equal := (actionSuccessors_eq_singleton.mp next.1).2.2 r present acts
    exact ⟨e, listed, rfl, equal ▸ next⟩

/-- For every identity there is one linear chain of its actions that holds all the effective ones,
a terminating record comes last on it, and a record the identity authorized off the chain, such as
one after a terminating record or one of several after the same action, is not effective and is on
no settled lineage. -/
theorem retired_key_authorizes_nothing (P : Primitives) (cluster : ClusterId)
    (calls : List RegistryCall) :
    let g := (new cluster).replay P calls
    ∀ k ∈ g, ∃ chain : List AuthorizationRecord,
      List.IsChain (fun r s => g.actionSuccessors k.id r.id = [s]) (k :: chain) ∧
      (k :: chain).Nodup ∧
      (∀ r ∈ g, ActsThrough k.id r → g.recordIsEffective r = true → r ∈ chain) ∧
      (∀ t ∈ chain, terminatesIdentity t k.id = true → chain.getLast? = some t) ∧
      (∀ r ∈ g, r.authorizer = some k.id → r ∉ chain →
        g.recordIsEffective r = false ∧ ∀ n u, Settled g n u → ¬ Descends g r u) ∧
      (∀ t ∈ g, terminatesIdentity t k.id = true →
        ∀ r ∈ g, actsAfter k.id t.id r = true → r ∉ chain) ∧
      (∀ action, ∀ r ∈ g, actsAfter k.id action r = true →
        ∀ s ∈ g, actsAfter k.id action s = true → r ≠ s → r ∉ chain) := by
  intro g k inside
  have wf : WellFormed P g := wellFormed_replay cluster calls
  obtain ⟨rank, ranked⟩ := wf.ranked
  obtain ⟨chain, h⟩ := wf.exists_actionChain inside
  have members := linked_mem h.linked
  have holds : ∀ r ∈ g, ActsThrough k.id r → Effective g r → r ∈ chain := fun r present acts =>
    h.effective_mem wf inside members present acts
  refine ⟨chain, h.linked.imp fun _ _ step => step.1, ?_, ?_, ?_, ?_, ?_, ?_⟩
  · refine (linked_rank ranked h.linked).imp ?_
    rintro r s less rfl
    exact lt_irrefl _ less
  · exact fun r present acts effective =>
      holds r present acts ((recordIsEffective_iff wf present).mp effective)
  · intro t member ends
    have last := linked_terminal h.linked (List.mem_cons_of_mem _ member) ends
    obtain ⟨c, rest, rfl⟩ := List.exists_cons_of_ne_nil (List.ne_nil_of_mem member)
    rwa [List.getLast?_cons_cons] at last
  · intro r present signer off
    have plain : ¬ Effective g r := fun effective => off (holds r present (Or.inl signer) effective)
    refine ⟨?_, fun n u settled path => ?_⟩
    · rw [← Bool.not_eq_true, recordIsEffective_iff wf present]
      exact plain
    · exact plain (((settled_iff wf).mp settled).lineage.descends path).1.effective
  · intro t there ends r present acts member
    obtain ⟨e, listed, same, follows⟩ := h.older_mem wf ranked inside present acts ⟨r, member, le_rfl⟩
    have here : e ∈ g := by
      rcases List.mem_cons.mp listed with rfl | onChain
      · exact inside
      · exact members e onChain
    have open' := follows.2
    rw [KeyedMap.eq_of_key here there same, ends] at open'
    cases open'
  · intro action r present acts s there acts' differ member
    obtain ⟨e, _, same, follows⟩ := h.older_mem wf ranked inside present acts ⟨r, member, le_rfl⟩
    subst same
    exact differ ((actionSuccessors_eq_singleton.mp follows.1).2.2 s there acts').symm

section Rotated
open Transparent

def rotation : AuthorizationRecord :=
  signed ((AuthorizationRecord.successorBody founding (identity 1 3) .rotate).setAuthorizer
    founding founding) founder

/-- An admission the founder's old key signs after the rotation. -/
def staleAdmission : AuthorizationRecord :=
  signed ((AuthorizationBody.active cluster member.publicIdentity 0 .admission).setAuthorizer
    founding rotation) founder

theorem rotated_key_authorizes_nothing :
    let g := (new cluster).replay primitives [.merge [staleAdmission, rotation, founding]]
    founding ∈ g ∧ ∃ chain : List AuthorizationRecord, rotation ∈ chain ∧
      chain.getLast? = some rotation ∧ staleAdmission ∉ chain ∧
      g.recordIsEffective staleAdmission = false := by
  intro g
  have inside : founding ∈ g.records := by decide +kernel
  have rotated : rotation ∈ g.records := by decide +kernel
  have stale : staleAdmission ∈ g.records := by decide +kernel
  obtain ⟨chain, _, _, holds, last, off, after, _⟩ := retired_key_authorizes_nothing primitives cluster
    [.merge [staleAdmission, rotation, founding]] founding inside
  have onChain := holds rotation rotated (Or.inl rfl) (by decide +kernel)
  have offChain := after rotation rotated (by decide +kernel) staleAdmission stale (by decide +kernel)
  exact ⟨inside, chain, onChain, last rotation onChain (by decide +kernel), offChain,
    (off staleAdmission stale rfl offChain).1⟩

end Rotated

section Revoked
open Transparent

/-- The member admits a third node with the action after which the founder revokes it. -/
def memberAdmission : AuthorizationRecord :=
  signed ((AuthorizationBody.active cluster (identity 3 3).publicIdentity 0 .admission).setAuthorizer
    admission admission) member

def laterAdmission : AuthorizationRecord :=
  signed ((AuthorizationBody.active cluster (identity 4 4).publicIdentity 0 .admission).setAuthorizer
    founding revocation) founder

/-- The revocation is the founder's only action before the later admission, and it has no effect
because it forks the member's chain: the effective actions alone are not linked. -/
theorem ineffective_action_between :
    let g := (new cluster).replay primitives
      [.merge [founding, admission, memberAdmission, revocation, laterAdmission]]
    founding ∈ g ∧ ¬ ∃ chain : List AuthorizationRecord,
      (∀ r, r ∈ chain ↔ r ∈ g ∧ ActsThrough founding.id r ∧ g.recordIsEffective r = true) ∧
      List.IsChain (fun r s => actsAfter founding.id r.id s = true) (founding :: chain) := by
  intro g
  have inside : founding ∈ g.records := by decide +kernel
  have revoked : revocation ∈ g.records := by decide +kernel
  have later : laterAdmission ∈ g.records := by decide +kernel
  refine ⟨inside, fun ⟨chain, holds, linked⟩ => ?_⟩
  have onChain : laterAdmission ∈ chain := (holds _).mpr ⟨later, Or.inl rfl, by decide +kernel⟩
  obtain ⟨i, bound, same⟩ := List.getElem_of_mem onChain
  have bound' : i < (founding :: chain).length := Nat.lt_succ_of_lt bound
  have step := List.isChain_iff_getElem.mp linked i (Nat.succ_lt_succ bound)
  rw [List.getElem_cons_succ, same] at step
  rcases actsAfter_iff.mp step with ⟨_, after⟩ | retired
  · have named : revocation.id = (founding :: chain)[i].id := Option.some.inj after
    rcases List.mem_cons.mp (List.getElem_mem bound') with first | deeper
    · rw [first] at named
      exact absurd named (by decide +kernel)
    · obtain ⟨there, _, effective⟩ := (holds _).mp deeper
      rw [← KeyedMap.eq_of_key revoked there named] at effective
      exact absurd effective (by decide +kernel)
  · cases retired

end Revoked

end AuthorizationRegistry

end Lycoris.Overlay
