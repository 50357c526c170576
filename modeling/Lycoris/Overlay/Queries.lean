import Lycoris.Overlay.Chains

/-!
The registry's queries compute the abstract reading. On a well-formed registry every query loop
stops within its bound, `recordIsEffective` decides `Effective`, and `status` names the tip of the
node's lineage.
-/

namespace Lycoris.Overlay
open Lib

namespace AuthorizationRegistry

variable {P : Primitives} {g g' : AuthorizationRegistry} {r s p c : AuthorizationRecord} {n : NodeId}

/-! ### Action chains -/

theorem Leads.inv {identity target current : RecordId} {next : AuthorizationRecord}
    (h : Leads g identity target current) (only : g.actionSuccessors identity current = [next]) :
    next.id = target ∨ (terminatesIdentity next identity = false ∧ Leads g identity target next.id) := by
  cases h with
  | last only' here =>
    rw [only] at only'
    cases only'
    exact Or.inl here
  | step only' continues rest =>
    rw [only] at only'
    cases only'
    exact Or.inr ⟨continues, rest⟩

theorem actionPathTurn_cases (g : AuthorizationRegistry) (identity target current : RecordId) :
    (∃ b, g.actionPathTurn identity target current = .done b ∧
      (b = true ↔ Leads g identity target current)) ∨
    (∃ next, g.actionSuccessors identity current = [next] ∧
      g.actionPathTurn identity target current = .next next.id ∧
      (Leads g identity target next.id ↔ Leads g identity target current)) := by
  unfold actionPathTurn
  split
  · rename_i next only
    split
    · rename_i here
      exact Or.inl ⟨true, rfl, by simpa using Leads.last only here⟩
    · rename_i elsewhere
      split
      · rename_i terminates
        refine Or.inl ⟨false, rfl, by simp, fun h => ?_⟩
        rcases h.inv only with here | ⟨continues, _⟩
        · exact absurd here elsewhere
        · rw [terminates] at continues
          cases continues
      · rename_i continues
        refine Or.inr ⟨next, only, rfl, fun rest => .step only (by simpa using continues) rest, fun h => ?_⟩
        rcases h.inv only with here | ⟨_, rest⟩
        · exact absurd here elsewhere
        · exact rest
  · rename_i several
    refine Or.inl ⟨false, rfl, by simp, fun h => ?_⟩
    cases h with
    | last only _ => exact absurd only (several _)
    | step only _ _ => exact absurd only (several _)

theorem actionPathContains_spec {rank : RecordId → Nat} (ranked : Ranking g rank) (present : r ∈ g)
    (target : RecordId) :
    ∃ b, g.actionPathContains? r.id target = some b ∧ (b = true ↔ OnPath g r.id target) := by
  unfold actionPathContains? OnPath
  split
  · rename_i same
    exact ⟨true, rfl, by simp [same]⟩
  · rename_i differ
    obtain ⟨b, answer, spec⟩ := loop_total
      (fun current => some (g.actionPathTurn r.id target current))
      (fun current => ∃ s ∈ g, s.id = current) (fun current => g.records.size - rank current)
      (fun current b => b = true ↔ Leads g r.id target current) (g.records.size + 1)
      (fun current => by
        rintro ⟨s, inside, rfl⟩
        rcases actionPathTurn_cases g r.id target s.id with ⟨b, last, spec⟩ | ⟨next, only, step, back⟩
        · exact Or.inl ⟨b, by rw [last], spec⟩
        · obtain ⟨member, acts, _⟩ := actionSuccessors_eq_singleton.mp only
          have less := ranked.after next member s.id (actsAfter_dependency acts).2
          have bound := ranked.bounded next member
          exact Or.inr ⟨next.id, by rw [step], ⟨next, member, rfl⟩, by omega,
            fun b post => post.trans back⟩)
      ⟨r, present, rfl⟩ (by omega)
    exact ⟨b, answer, spec.trans (by simp [differ])⟩

/-! ### Effectiveness -/

/-- What `record_is_effective` asks of the authorizer. -/
def SignedOnPath (g : AuthorizationRegistry) (r : AuthorizationRecord) : Prop :=
  ∀ a ∈ g, r.authorizer = some a.id → OnPath g a.id r.id ∧ a.state = .active ∧ EffectiveLineage g a

theorem effective_iff (wf : WellFormed P g) (present : r ∈ g) :
    Effective g r ↔ SignedOnPath g r ∧ RetiresOnPath g r := by
  constructor
  · intro h
    cases h with
    | unsigned none retires => exact ⟨fun a _ named => absurd (none.symm.trans named) (by simp), retires⟩
    | signed inside named path active trusted retires =>
      refine ⟨fun a member named' => ?_, retires⟩
      cases KeyedMap.eq_of_key inside member (Option.some.inj (named.symm.trans named'))
      exact ⟨path, active, trusted⟩
  · rintro ⟨signed, retires⟩
    cases (wf.accepted r present).signer with
    | own none _ _ => exact .unsigned none retires
    | authorizer a head inside named _ _ _ =>
      obtain ⟨path, active, trusted⟩ := signed a inside named
      exact .signed inside named path active trusted retires

/-- What the walk of `identity_record_is_effective` has established when it stands at `r`. -/
def Entered (g : AuthorizationRegistry) (r : AuthorizationRecord) : Prop :=
  g.roots r.nodeId = [r] ∨ ∃ p, EffectiveLineage g p ∧ g.children p.id = [r]

theorem Entered.lineage (entered : Entered g r) (trusted : Effective g r) : EffectiveLineage g r := by
  rcases entered with only | ⟨p, before, only⟩
  · exact .root only trusted
  · exact .child before only trusted

theorem identityTurn_cases {rank : RecordId → Nat} (ranked : Ranking g rank)
    {effective : AuthorizationRecord → Option Bool} {identity current : AuthorizationRecord}
    (decides : ∃ b, effective current = some b ∧ (b = true ↔ Effective g current))
    (present : identity ∈ g) (entered : Entered g current) (path : Descends g current identity) :
    (∃ b, g.identityTurn effective identity current = some (.done b) ∧
      (b = true ↔ EffectiveLineage g identity)) ∨
    (∃ next, g.identityTurn effective identity current = some (.next next) ∧ Entered g next ∧
      Descends g next identity ∧ rank current.id < rank next.id) := by
  obtain ⟨b, answer, spec⟩ := decides
  unfold identityTurn
  rw [answer]
  cases b with
  | false =>
    refine Or.inl ⟨false, rfl, by simp, fun h => ?_⟩
    exact absurd (spec.mpr (h.descends path).1.effective) (by simp)
  | true =>
    have lineage := entered.lineage (spec.mp rfl)
    dsimp only
    split
    · rename_i same
      cases KeyedMap.eq_of_key (path.mem present) present same
      exact Or.inl ⟨true, rfl, by simpa using lineage⟩
    · rename_i differ
      have apart : current ≠ identity := fun same => differ (by rw [same])
      split
      · rename_i next only
        have step := child_of_sole lineage.mem only
        rcases path.cases_head with same | ⟨c, first, rest⟩
        · exact absurd same apart
        · exact Or.inr ⟨next, rfl, Or.inr ⟨current, lineage, only⟩, first.sole only ▸ rest,
            ranked.child step⟩
      · rename_i several
        refine Or.inl ⟨false, rfl, by simp, fun h => ?_⟩
        obtain ⟨c, only⟩ := (h.descends path).2 apart
        exact absurd only (several c)

theorem identityRecordIsEffective_spec {rank : RecordId → Nat} (wf : WellFormed P g)
    (ranked : Ranking g rank) {identity : AuthorizationRecord} (present : identity ∈ g)
    (effective : AuthorizationRecord → Option Bool)
    (decides : ∀ c ∈ g, rank c.id ≤ rank identity.id →
      ∃ b, effective c = some b ∧ (b = true ↔ Effective g c)) :
    ∃ b, g.identityRecordIsEffective? effective identity = some b ∧
      (b = true ↔ identity.state = .active ∧ EffectiveLineage g identity) := by
  unfold identityRecordIsEffective?
  split
  · rename_i inactive
    exact ⟨false, rfl, by simp [inactive]⟩
  · rename_i active
    have active : identity.state = .active := not_not.mp active
    split
    · rename_i root only
      obtain ⟨member, _, sole⟩ := roots_eq_singleton.mp only
      have path : Descends g root identity := by
        obtain ⟨start, inside, first, node, path⟩ := wf.exists_root present
        exact sole start inside node first ▸ path
      have entered : Entered g root := Or.inl (by rw [(roots_eq_singleton.mp only).2.1.1]; exact only)
      obtain ⟨b, answer, spec⟩ := loop_total
        (g.identityTurn effective identity)
        (fun current => Entered g current ∧ Descends g current identity)
        (fun current => g.records.size - rank current.id)
        (fun _ b => b = true ↔ EffectiveLineage g identity) (g.records.size + 1)
        (fun current => by
          rintro ⟨entered, path⟩
          have inside := path.mem present
          have low : rank current.id ≤ rank identity.id := by
            rcases descends_rank ranked path with same | less
            · rw [same]
            · exact less.le
          rcases identityTurn_cases ranked (decides current inside low) present entered path with
            ⟨b, last, spec⟩ | ⟨next, step, entered', path', less⟩
          · exact Or.inl ⟨b, last, spec⟩
          · have bound := ranked.bounded next (path'.mem present)
            exact Or.inr ⟨next, step, ⟨entered', path'⟩, by omega, fun b post => post⟩)
        ⟨entered, path⟩ (by omega)
      exact ⟨b, answer, spec.trans (by simp [active])⟩
    · rename_i several
      refine ⟨false, rfl, by simp, fun h => ?_⟩
      obtain ⟨root, only⟩ := h.2.sole_root wf
      exact absurd only (several root)

theorem retiresOnUniqueChain_spec {rank : RecordId → Nat} (wf : WellFormed P g)
    (ranked : Ranking g rank) (present : r ∈ g) :
    ∃ b, g.retiresOnUniqueChain? r = some b ∧ (b = true ↔ RetiresOnPath g r) := by
  unfold retiresOnUniqueChain? RetiresOnPath
  cases retired : r.retires with
  | none => exact ⟨true, rfl, by simp⟩
  | some t =>
    have named : t.identity ∈ r.dependencies := by
      simp [AuthorizationRecord.dependencies, retired]
    obtain ⟨i, inside, same⟩ := (wf.accepted r present).dependency named
    obtain ⟨b, answer, spec⟩ := actionPathContains_spec ranked inside r.id
    rw [same] at answer spec
    exact ⟨b, answer, spec.trans (by simp)⟩

theorem signedOnUniqueChain_spec {rank : RecordId → Nat} (wf : WellFormed P g)
    (ranked : Ranking g rank) (present : r ∈ g) (effective : AuthorizationRecord → Option Bool)
    (decides : ∀ c ∈ g, rank c.id < rank r.id →
      ∃ b, effective c = some b ∧ (b = true ↔ Effective g c)) :
    ∃ b, g.signedOnUniqueChain? effective r = some b ∧ (b = true ↔ SignedOnPath g r) := by
  unfold signedOnUniqueChain? SignedOnPath
  cases authorizer : r.authorizer with
  | none => exact ⟨true, rfl, by simp⟩
  | some id =>
    obtain ⟨a, inside, same⟩ := (wf.accepted r present).dependency (authorizer_dependency authorizer)
    subst same
    have less := ranked.after r present a.id (authorizer_dependency authorizer)
    have only : (∀ b ∈ g, some a.id = some b.id →
        OnPath g b.id r.id ∧ b.state = .active ∧ EffectiveLineage g b) ↔
        OnPath g a.id r.id ∧ a.state = .active ∧ EffectiveLineage g a := by
      constructor
      · exact fun h => h a inside rfl
      · intro h b member named
        cases KeyedMap.eq_of_key inside member (Option.some.inj named)
        exact h
    rw [only]
    obtain ⟨path, pathAnswer, pathSpec⟩ := actionPathContains_spec ranked inside r.id
    obtain ⟨trusted, trustedAnswer, trustedSpec⟩ := identityRecordIsEffective_spec wf ranked inside
      effective (fun c member low => decides c member (by omega))
    have found : g.records.get? a.id = some a := inside
    cases path with
    | false => exact ⟨false, by simp [pathAnswer], by simp [← pathSpec]⟩
    | true => exact ⟨trusted, by simp [pathAnswer, found, trustedAnswer],
        by rw [trustedSpec, ← pathSpec]; simp⟩

theorem effectiveAt_spec {rank : RecordId → Nat} (wf : WellFormed P g) (ranked : Ranking g rank)
    {depth : Nat} (present : r ∈ g) (enough : rank r.id < depth) :
    ∃ b, g.effectiveAt depth r = some b ∧ (b = true ↔ Effective g r) := by
  induction depth generalizing r with
  | zero => exact absurd enough (Nat.not_lt_zero _)
  | succ depth ih =>
    obtain ⟨signed, signedAnswer, signedSpec⟩ := signedOnUniqueChain_spec wf ranked present
      (g.effectiveAt depth) (fun c member low => ih member (by omega))
    obtain ⟨retires, retiresAnswer, retiresSpec⟩ := retiresOnUniqueChain_spec wf ranked present
    have both := effective_iff wf present
    rw [← signedSpec, ← retiresSpec] at both
    simp only [effectiveAt, signedAnswer]
    cases signed with
    | false => exact ⟨false, rfl, by simp [both]⟩
    | true => exact ⟨retires, retiresAnswer, by simp [both]⟩

theorem recordIsEffective?_spec (wf : WellFormed P g) (present : r ∈ g) :
    ∃ b, g.recordIsEffective? r = some b ∧ (b = true ↔ Effective g r) := by
  obtain ⟨rank, ranked⟩ := wf.ranked
  exact effectiveAt_spec wf ranked present (Nat.lt_succ_of_lt (ranked.bounded r present))

theorem recordIsEffective_iff (wf : WellFormed P g) (present : r ∈ g) :
    g.recordIsEffective r = true ↔ Effective g r := by
  obtain ⟨b, answer, spec⟩ := recordIsEffective?_spec wf present
  simpa [recordIsEffective, answer] using spec

/-! ### Status -/

/-- What a status says about the node. -/
inductive StatusOf (g : AuthorizationRegistry) (n : NodeId) : AuthorizationStatus → Prop where
  | unknown (absent : ∀ s ∈ g, s.nodeId ≠ n) : StatusOf g n .unknown
  | active {r : AuthorizationRecord} (tip : Tip g n r) (state : r.state = .active) :
      StatusOf g n (.active r)
  | revoked {r : AuthorizationRecord} (tip : Tip g n r) (state : r.state = .revoked) :
      StatusOf g n (.revoked r)
  | conflicted {ids : List RecordId} (known : ∃ s ∈ g, s.nodeId = n) (stuck : ∀ r, ¬ Tip g n r) :
      StatusOf g n (.conflicted ids)

theorem Entered.mem (entered : Entered g r) : r ∈ g := by
  rcases entered with only | ⟨p, _, only⟩
  · exact (roots_eq_singleton.mp only).1
  · exact (children_eq_singleton.mp only).1

theorem statusTurn_cases {rank : RecordId → Nat} (wf : WellFormed P g) (ranked : Ranking g rank)
    (entered : Entered g r) (node : r.nodeId = n) :
    (∃ status, g.statusTurn r = some (.done status) ∧ StatusOf g n status) ∨
    (∃ next, g.statusTurn r = some (.next next) ∧ Entered g next ∧ next.nodeId = n ∧
      rank r.id < rank next.id) := by
  have present := entered.mem
  -- A tip of the node would come after `r`, so `r` would be effective and have at most one child.
  have before : ∀ t, Tip g n t → EffectiveLineage g r ∧
      (g.children r.id = [] ∨ ∃ c, g.children r.id = [c]) := by
    intro t tip
    obtain ⟨lineage, more⟩ := tip.lineage.descends (tip.descends wf present node)
    refine ⟨lineage, ?_⟩
    by_cases same : r = t
    · exact Or.inl (same ▸ tip.last)
    · exact Or.inr (more same)
  obtain ⟨b, answer, spec⟩ := recordIsEffective?_spec wf present
  unfold statusTurn
  rw [answer]
  cases b with
  | false =>
    refine Or.inl ⟨_, rfl, .conflicted ⟨r, present, node⟩ fun t tip => ?_⟩
    exact absurd (spec.mpr (before t tip).1.effective) (by simp)
  | true =>
    have lineage := entered.lineage (spec.mp rfl)
    dsimp only
    split
    · rename_i last
      have tip : Tip g n r := ⟨node, lineage, last⟩
      cases state : r.state with
      | active => exact Or.inl ⟨_, rfl, .active tip state⟩
      | revoked => exact Or.inl ⟨_, rfl, .revoked tip state⟩
    · rename_i next only
      have step := child_of_sole present only
      exact Or.inr ⟨next, rfl, Or.inr ⟨r, lineage, only⟩, (wf.child_node step).trans node,
        ranked.child step⟩
    · rename_i several more
      refine Or.inl ⟨_, rfl, .conflicted ⟨r, present, node⟩ fun t tip => ?_⟩
      rcases (before t tip).2 with none | ⟨c, one⟩
      · exact several none
      · exact more c one

theorem status?_spec (wf : WellFormed P g) (n : NodeId) :
    ∃ status, g.status? n = some status ∧ StatusOf g n status := by
  obtain ⟨rank, ranked⟩ := wf.ranked
  unfold status?
  split
  · rename_i none
    exact ⟨_, rfl, .unknown (wf.roots_nil.mp none)⟩
  · rename_i root only
    obtain ⟨_, ⟨node, _⟩, _⟩ := roots_eq_singleton.mp only
    exact loop_total g.statusTurn (fun current => Entered g current ∧ current.nodeId = n)
      (fun current => g.records.size - rank current.id) (fun _ status => StatusOf g n status) _
      (fun current => by
        rintro ⟨entered, node⟩
        rcases statusTurn_cases wf ranked entered node with
          ⟨status, last, spec⟩ | ⟨next, step, entered', node', less⟩
        · exact Or.inl ⟨status, last, spec⟩
        · have bound := ranked.bounded next entered'.mem
          exact Or.inr ⟨next, step, ⟨entered', node'⟩, by omega, fun _ post => post⟩)
      ⟨Or.inl (by rw [node]; exact only), node⟩ (by omega)
  · rename_i several more
    refine ⟨_, rfl, .conflicted ?_ fun t tip => ?_⟩
    · by_contra absent
      push Not at absent
      exact several (wf.roots_nil.mpr absent)
    · obtain ⟨root, only⟩ := tip.lineage.sole_root wf
      rw [tip.node] at only
      exact more root only

theorem status_spec (wf : WellFormed P g) (n : NodeId) : StatusOf g n (g.status n) := by
  obtain ⟨result, answer, spec⟩ := status?_spec wf n
  simpa [status, answer] using spec

theorem StatusOf.eq_unknown {status : AuthorizationStatus} (h : StatusOf g n status) :
    status = .unknown ↔ ∀ s ∈ g, s.nodeId ≠ n := by
  cases h with
  | unknown absent => simpa using absent
  | active tip _ => simpa using ⟨_, tip.lineage.mem, tip.node⟩
  | revoked tip _ => simpa using ⟨_, tip.lineage.mem, tip.node⟩
  | conflicted known _ => simpa using known

theorem StatusOf.eq_active {status : AuthorizationStatus} (wf : WellFormed P g)
    (h : StatusOf g n status) : status = .active r ↔ Tip g n r ∧ r.state = .active := by
  cases h with
  | unknown absent => simpa using fun tip : Tip g n r => absurd tip.node (absent r tip.lineage.mem)
  | active tip state =>
    constructor
    · rintro ⟨⟩
      exact ⟨tip, state⟩
    · rintro ⟨other, _⟩
      rw [tip.unique wf other]
  | revoked tip state =>
    simp only [reduceCtorEq, false_iff]
    rintro ⟨other, active⟩
    rw [tip.unique wf other, active] at state
    cases state
  | conflicted _ stuck => simpa using fun tip => absurd tip (stuck r)

theorem StatusOf.eq_revoked {status : AuthorizationStatus} (wf : WellFormed P g)
    (h : StatusOf g n status) : status = .revoked r ↔ Tip g n r ∧ r.state = .revoked := by
  cases h with
  | unknown absent => simpa using fun tip : Tip g n r => absurd tip.node (absent r tip.lineage.mem)
  | active tip state =>
    simp only [reduceCtorEq, false_iff]
    rintro ⟨other, revoked⟩
    rw [tip.unique wf other, revoked] at state
    cases state
  | revoked tip state =>
    constructor
    · rintro ⟨⟩
      exact ⟨tip, state⟩
    · rintro ⟨other, _⟩
      rw [tip.unique wf other]
  | conflicted _ stuck => simpa using fun tip => absurd tip (stuck r)

theorem status_unknown (wf : WellFormed P g) : g.status n = .unknown ↔ ∀ s ∈ g, s.nodeId ≠ n :=
  (status_spec wf n).eq_unknown

theorem status_active (wf : WellFormed P g) :
    g.status n = .active r ↔ Tip g n r ∧ r.state = .active :=
  (status_spec wf n).eq_active wf

theorem status_revoked (wf : WellFormed P g) :
    g.status n = .revoked r ↔ Tip g n r ∧ r.state = .revoked :=
  (status_spec wf n).eq_revoked wf

/-- The node's status is `Active` or `Revoked`, with this record. -/
def Settled (g : AuthorizationRegistry) (n : NodeId) (r : AuthorizationRecord) : Prop :=
  g.status n = .active r ∨ g.status n = .revoked r

theorem settled_iff (wf : WellFormed P g) : Settled g n r ↔ Tip g n r := by
  unfold Settled
  rw [status_active wf, status_revoked wf, ← and_or_left]
  cases r.state <;> simp

def Conflicted (g : AuthorizationRegistry) (n : NodeId) : Prop := ∃ ids, g.status n = .conflicted ids

theorem conflicted_iff (wf : WellFormed P g) :
    Conflicted g n ↔ (∃ s ∈ g, s.nodeId = n) ∧ ∀ r, ¬ Tip g n r := by
  unfold Conflicted
  have spec := status_spec wf n
  constructor
  · rintro ⟨ids, answer⟩
    rw [answer] at spec
    cases spec with
    | conflicted known stuck => exact ⟨known, stuck⟩
  · rintro ⟨⟨s, present, node⟩, stuck⟩
    cases answer : g.status n with
    | unknown => exact absurd node ((status_unknown wf).mp answer s present)
    | active r => exact absurd ((status_active wf).mp answer).1 (stuck r)
    | revoked r => exact absurd ((status_revoked wf).mp answer).1 (stuck r)
    | conflicted ids => exact ⟨ids, rfl⟩

/-! ### The end of an action chain -/

/-- The only action after `current` on `identity`'s chain is `next`, and it does not end the chain. -/
def Continues (g : AuthorizationRegistry) (identity : RecordId) (current next : RecordId) : Prop :=
  ∃ r, g.actionSuccessors identity current = [r] ∧ terminatesIdentity r identity = false ∧ r.id = next

theorem headTurn_cases (g : AuthorizationRegistry) (identity : RecordId) (r : AuthorizationRecord) :
    (g.actionSuccessors identity r.id = [] ∧ g.headTurn identity r = .done (.ok r)) ∨
    (∃ e, g.headTurn identity r = .done (.error e)) ∨
    (∃ next, g.actionSuccessors identity r.id = [next] ∧ terminatesIdentity next identity = false ∧
      g.headTurn identity r = .next next) := by
  unfold headTurn
  split
  · exact Or.inl ⟨‹_›, rfl⟩
  · rename_i next only
    split
    · exact Or.inr (Or.inl ⟨_, rfl⟩)
    · rename_i continues
      exact Or.inr (Or.inr ⟨next, only, by simpa using continues, rfl⟩)
  · exact Or.inr (Or.inl ⟨_, rfl⟩)

theorem authorizerHead?_spec (wf : WellFormed P g) (r : AuthorizationRecord) :
    ∃ result, g.authorizerHead? r = some result ∧ ∀ head, result = .ok head →
      head ∈ g ∧ g.actionSuccessors r.id head.id = [] ∧
        Relation.ReflTransGen (Continues g r.id) r.id head.id := by
  obtain ⟨rank, ranked⟩ := wf.ranked
  unfold authorizerHead?
  cases read : g.record r.id with
  | error e => exact ⟨.error e, rfl, by simp⟩
  | ok start =>
    obtain ⟨inside, same⟩ := record_ok.mp read
    obtain ⟨result, answer, spec⟩ := loop_total
      (fun current => some (g.headTurn r.id current)) (fun current => current ∈ g)
      (fun current => g.records.size - rank current.id)
      (fun current result => ∀ last, result = .ok last → last ∈ g ∧
        g.actionSuccessors r.id last.id = [] ∧
        Relation.ReflTransGen (Continues g r.id) current.id last.id) (g.records.size + 1)
      (fun current member => by
        rcases headTurn_cases g r.id current with ⟨none, done⟩ | ⟨e, done⟩ | ⟨next, only, continues, step⟩
        · refine Or.inl ⟨_, by rw [done], ?_⟩
          rintro last ⟨⟩
          exact ⟨member, none, .refl⟩
        · exact Or.inl ⟨_, by rw [done], by simp⟩
        · obtain ⟨inside, acts, _⟩ := actionSuccessors_eq_singleton.mp only
          have less := ranked.after next inside current.id (actsAfter_dependency acts).2
          have bound := ranked.bounded next inside
          refine Or.inr ⟨next, by rw [step], inside, by omega, fun result post last ok => ?_⟩
          obtain ⟨found, stop, walk⟩ := post last ok
          exact ⟨found, stop, .head ⟨next, only, continues, rfl⟩ walk⟩)
      inside (by omega)
    rw [same] at spec
    exact ⟨result, answer, spec⟩

/-- `authorizer_head` returns the last action of an unfinished chain. -/
theorem authorizerHead_ok {head : AuthorizationRecord} (wf : WellFormed P g)
    (h : g.authorizerHead r = .ok head) : head ∈ g ∧ g.actionSuccessors r.id head.id = [] ∧
      Relation.ReflTransGen (Continues g r.id) r.id head.id := by
  obtain ⟨result, answer, spec⟩ := authorizerHead?_spec wf r
  rw [authorizerHead, answer, Option.getD_some] at h
  exact spec head h

end AuthorizationRegistry

end Lycoris.Overlay
