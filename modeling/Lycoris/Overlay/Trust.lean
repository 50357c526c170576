import Lycoris.Overlay.Monotone

/-!
The chain of trust. Where every recovery and revocation names an authorizer, each record behind a
settled status is the genesis of the cluster or was signed with the key of an admitted identity,
and authorizers lead back to that genesis. Validation does not ask for the authorizer: a recovery
without one is checked against the very key it introduces.
-/

namespace Lycoris.Overlay
open Lib

namespace AuthorizationRegistry

variable {P : Primitives} {g g' : AuthorizationRegistry} {r s a c : AuthorizationRecord} {n : NodeId}

/-- A self-signed admission of the node the cluster id is derived from. -/
structure Genesis (P : Primitives) (g : AuthorizationRegistry) (r : AuthorizationRecord) : Prop where
  present : r ∈ g
  kind : r.kind = .admission
  root : r.predecessor = none
  unsigned : r.authorizer = none
  node : ClusterId.fromGenesis P r.nodeId = g.clusterId
  signed : SignedUnder P r.publicKey r

structure AuthorizedBy (g : AuthorizationRegistry) (r a : AuthorizationRecord) : Prop where
  present : a ∈ g
  named : r.authorizer = some a.id

structure Admitted (g : AuthorizationRegistry) (a : AuthorizationRecord) : Prop where
  active : a.state = .active
  lineage : EffectiveLineage g a

/-- The holder of the encoded key signed the record; `signedBy` tells which messages the holder of
a key ever signed. -/
def HolderSigned (P : Primitives) (signedBy : P.PublicKey → Bytes → Prop) (publicKey : Bytes)
    (r : AuthorizationRecord) : Prop :=
  ∃ key bytes, P.decodePublicKey publicKey = some key ∧ P.bodyBytes r.body = some bytes ∧
    signedBy key bytes

/-- Nothing verifies that the holder of the key did not sign. -/
def Unforgeable (P : Primitives) (signedBy : P.PublicKey → Bytes → Prop) : Prop :=
  ∀ key bytes signature, P.verify key bytes signature = true → signedBy key bytes

/-- No two nodes of the registry derive the same cluster id. -/
def GenesisSeparates (P : Primitives) (g : AuthorizationRegistry) : Prop :=
  ∀ r ∈ g, ∀ s ∈ g, ClusterId.fromGenesis P r.nodeId = ClusterId.fromGenesis P s.nodeId →
    r.nodeId = s.nodeId

/-- `c` names an admitted identity whose key signed it, one that was admitted ever since `c` has
been in the registry. -/
structure Endorsed (P : Primitives) (signedBy : P.PublicKey → Bytes → Prop) (cluster : ClusterId)
    (calls : List RegistryCall) (c a : AuthorizationRecord) : Prop where
  authorizer : AuthorizedBy ((new cluster).replay P calls) c a
  admitted : ∀ earlier, earlier <+: calls → c ∈ (new cluster).replay P earlier →
    Admitted ((new cluster).replay P earlier) a
  signed : SignedUnder P a.publicKey c
  holder : HolderSigned P signedBy a.publicKey c

/-- Every record behind a settled status is the one genesis or endorsed, authorizers lead to the
genesis, and a status is settled anew only by a call that brings the record it settles on. -/
structure ChainOfTrust (P : Primitives) (signedBy : P.PublicKey → Bytes → Prop) (cluster : ClusterId)
    (calls : List RegistryCall) : Prop where
  chain : ∀ n r, Settled ((new cluster).replay P calls) n r →
    ∃ genesis, Genesis P ((new cluster).replay P calls) genesis ∧
      (∀ s, Genesis P ((new cluster).replay P calls) s → s = genesis) ∧
      Relation.ReflTransGen (AuthorizedBy ((new cluster).replay P calls)) r genesis ∧
      ∀ c, Descends ((new cluster).replay P calls) c r →
        c = genesis ∨ ∃ a, Endorsed P signedBy cluster calls c a
  change : ∀ earlier call, earlier ++ [call] <+: calls → ∀ n r,
    Settled ((new cluster).replay P (earlier ++ [call])) n r →
    ¬ Settled ((new cluster).replay P earlier) n r → r ∈ call.offered

/-- A recovery or revocation names an authorizer. -/
def NamesAuthorizer (r : AuthorizationRecord) : Prop :=
  r.kind = .recover ∨ r.kind = .revoke → r.authorizer ≠ none

/-! ### The genesis -/

theorem genesis_of_root (wf : WellFormed P g) (present : r ∈ g) (root : r.predecessor = none)
    (unsigned : r.authorizer = none) : Genesis P g r := by
  have accepted := wf.accepted r present
  have signed : SignedUnder P r.publicKey r := by
    cases accepted.signer with
    | own _ _ signed => exact signed
    | authorizer a head _ signer => exact absurd (unsigned.symm.trans signer) (by simp)
  cases accepted.succession with
  | admission _ kind _ _ _ _ genesis =>
    exact ⟨present, kind, root, unsigned, (genesis unsigned).trans accepted.cluster, signed⟩
  | rotation p _ named => exact absurd (root.symm.trans named) (by simp)
  | retirement p head _ named => exact absurd (root.symm.trans named) (by simp)

theorem genesis_of_unsigned (wf : WellFormed P g) (named : ∀ s ∈ g, NamesAuthorizer s)
    (present : r ∈ g) (unsigned : r.authorizer = none) : Genesis P g r := by
  have root : r.predecessor = none := by
    cases (wf.accepted r present).succession with
    | admission root => exact root
    | rotation p _ _ _ _ _ _ signer => exact absurd (unsigned.symm.trans signer) (by simp)
    | retirement p head _ _ _ _ kind =>
      exact absurd unsigned (named r present (kind.imp And.left And.left))
  exact genesis_of_root wf present root unsigned

theorem Genesis.unique (separates : GenesisSeparates P g) (first : Genesis P g r)
    (lineage : EffectiveLineage g r) (second : Genesis P g s) : s = r := by
  have node := separates s second.present r first.present (second.node.trans first.node.symm)
  cases lineage with
  | root only _ => exact (roots_eq_singleton.mp only).2.2 s second.present node second.root
  | child before only _ =>
    exact absurd (first.root.symm.trans (children_eq_singleton.mp only).2.1) (by simp)

theorem Effective.authorizer (trusted : Effective g r) :
    r.authorizer = none ∨ ∃ a, AuthorizedBy g r a ∧ Admitted g a := by
  cases trusted with
  | unsigned none _ => exact Or.inl none
  | signed present named _ active lineage _ => exact Or.inr ⟨_, ⟨present, named⟩, active, lineage⟩

theorem EffectiveLineage.reaches_genesis (wf : WellFormed P g) (named : ∀ s ∈ g, NamesAuthorizer s)
    (lineage : EffectiveLineage g r) : ∃ genesis, Genesis P g genesis ∧ EffectiveLineage g genesis ∧
      Relation.ReflTransGen (AuthorizedBy g) r genesis := by
  obtain ⟨rank, ranked⟩ := wf.ranked
  induction hn : rank r.id using Nat.strong_induction_on generalizing r with
  | _ k ih =>
    subst hn
    rcases lineage.effective.authorizer with unsigned | ⟨a, step, admitted⟩
    · exact ⟨r, genesis_of_unsigned wf named lineage.mem unsigned, lineage, .refl⟩
    · have less := ranked.after r lineage.mem a.id (authorizer_dependency step.named)
      obtain ⟨genesis, first, trusted, walk⟩ := ih _ less admitted.lineage rfl
      exact ⟨genesis, first, trusted, .head step walk⟩

/-! ### Signatures behind a lineage -/

theorem WellFormed.signed_by_authorizer (wf : WellFormed P g) (present : c ∈ g)
    (step : AuthorizedBy g c a) : SignedUnder P a.publicKey c := by
  cases (wf.accepted c present).signer with
  | own unsigned => exact absurd (unsigned.symm.trans step.named) (by simp)
  | authorizer b head inside named _ _ signed =>
    rwa [KeyedMap.eq_of_key step.present inside (Option.some.inj (step.named.symm.trans named))]

theorem SignedUnder.holder {signedBy : P.PublicKey → Bytes → Prop} (unforgeable : Unforgeable P signedBy)
    {publicKey : Bytes} (signed : SignedUnder P publicKey r) : HolderSigned P signedBy publicKey r := by
  obtain ⟨key, bytes, decoded, encoded, verified⟩ := signed
  exact ⟨key, bytes, decoded, encoded, unforgeable key bytes r.signature verified⟩

theorem Admitted.shrink (wf : WellFormed P g) (grown : Extends g g') (h : Admitted g' a)
    (present : c ∈ g) (step : AuthorizedBy g' c a) : Admitted g a :=
  ⟨h.active, h.lineage.shrink wf grown
    (wf.named_earlier grown present step.present (authorizer_dependency step.named))⟩

theorem replay_append (calls more : List RegistryCall) :
    g.replay P (calls ++ more) = (g.replay P calls).replay P more := by
  simp [replay]

theorem replay_extends {earlier calls : List RegistryCall} (start : earlier <+: calls) :
    Extends (g.replay P earlier) (g.replay P calls) := by
  obtain ⟨more, rfl⟩ := start
  rw [replay_append]
  exact (replay_grows_any more).extends

/-- A status settled on a record that was there before was settled on it before. -/
theorem Settled.shrink (wf : WellFormed P g) (wf' : WellFormed P g') (grown : Extends g g')
    (h : Settled g' n r) (present : r ∈ g) : Settled g n r := by
  have tip := (settled_iff wf').mp h
  exact (settled_iff wf).mpr ⟨tip.node, tip.lineage.shrink wf grown present, grown.children_nil tip.last⟩

theorem Settled.offered (wf : WellFormed P g) (call : RegistryCall)
    (after : Settled (g.replay P [call]) n r) (before : ¬ Settled g n r) : r ∈ call.offered := by
  have grows : Grows P (· ∈ call.offered) g (g.replay P [call]) :=
    replay_grows fun c member => by rw [List.mem_singleton.mp member]; exact fun _ inside => inside
  have wf' := grows.wellFormed wf
  rcases grows.mem ((settled_iff wf').mp after).lineage.mem with inside | offered
  · exact absurd (after.shrink wf wf' grows.extends inside) before
  · exact offered

/-- Where every offered recovery and revocation names an authorizer, trust goes back to the
genesis. -/
theorem chain_of_trust (P : Primitives) (signedBy : P.PublicKey → Bytes → Prop) (cluster : ClusterId)
    (calls : List RegistryCall) (unforgeable : Unforgeable P signedBy)
    (separates : GenesisSeparates P ((new cluster).replay P calls))
    (named : ∀ call ∈ calls, ∀ r ∈ call.offered, NamesAuthorizer r) :
    ChainOfTrust P signedBy cluster calls := by
  constructor
  · intro n r settled
    have wf := wellFormed_replay (P := P) cluster calls
    have named : ∀ s ∈ (new cluster).replay P calls, NamesAuthorizer s := fun s member =>
      ((replay_grows named).mem member).resolve_left (KeyedMap.not_mem_empty s)
    have lineage := ((settled_iff wf).mp settled).lineage
    obtain ⟨genesis, first, trusted, walk⟩ := lineage.reaches_genesis wf named
    refine ⟨genesis, first, fun s => first.unique separates trusted, walk, fun c path => ?_⟩
    have effective := (lineage.descends path).1
    rcases effective.effective.authorizer with unsigned | ⟨a, step, admitted⟩
    · exact Or.inl (first.unique separates trusted (genesis_of_unsigned wf named effective.mem unsigned))
    · have signed := wf.signed_by_authorizer effective.mem step
      refine Or.inr ⟨a, step, fun earlier start present => ?_, signed, signed.holder unforgeable⟩
      exact admitted.shrink (wellFormed_replay cluster earlier) (replay_extends start) present step
  · intro earlier call _ n r after before
    rw [replay_append] at after
    exact after.offered (wellFormed_replay cluster earlier) call before

/-! ### A recovery without an authorizer -/

section Takeover
open Transparent

/-- A recovery of the member to a key of the thief's own, signed with that key. -/
def takeover : AuthorizationRecord :=
  signed { AuthorizationRecord.successorBody admission (identity 2 9) .recover with
    retires := some ⟨admission.id, admission.id⟩ } (identity 2 9)

theorem genesisSeparates_of_vals
    (distinct : ∀ r ∈ g.records.vals, ∀ s ∈ g.records.vals,
      ClusterId.fromGenesis P r.nodeId = ClusterId.fromGenesis P s.nodeId → r.nodeId = s.nodeId) :
    GenesisSeparates P g :=
  fun r inside s member => distinct r (KeyedMap.mem_vals.mpr inside) s (KeyedMap.mem_vals.mpr member)

theorem chain_of_trust_member :
    let calls : List RegistryCall := [.merge [admission, founding], .insert revocation]
    ((new cluster).replay primitives calls).status member.nodeId = .revoked revocation ∧
      ChainOfTrust primitives (fun key bytes => ∃ mark, primitives.verify key bytes mark = true) cluster
        calls := by
  intro calls
  refine ⟨by decide +kernel, chain_of_trust _ _ _ _ (fun _ _ mark verified => ⟨mark, verified⟩)
    (genesisSeparates_of_vals (by decide +kernel)) ?_⟩
  simp [calls, RegistryCall.offered, NamesAuthorizer, revocation, admission, founding, signed,
    AuthorizationBody.active, AuthorizationBody.setAuthorizer]

theorem takeover_breaks_chain :
    let calls : List RegistryCall := [.merge [founding, admission], .insert takeover]
    let signedBy := fun key bytes => ∃ mark, primitives.verify key bytes mark = true
    Unforgeable primitives signedBy ∧ GenesisSeparates primitives ((new cluster).replay primitives calls) ∧
      ((new cluster).replay primitives calls).status member.nodeId = .active takeover ∧
      ¬ ChainOfTrust primitives signedBy cluster calls := by
  intro calls signedBy
  have active : ((new cluster).replay primitives calls).status member.nodeId = .active takeover := by
    decide +kernel
  refine ⟨fun _ _ mark verified => ⟨mark, verified⟩, genesisSeparates_of_vals (by decide +kernel), active,
    fun trust => ?_⟩
  obtain ⟨genesis, first, _, _, chain⟩ := trust.chain _ _ (Or.inl active)
  rcases chain takeover .refl with same | ⟨a, endorsed⟩
  · exact nomatch same ▸ first.root
  · exact nomatch endorsed.authorizer.named

end Takeover

end AuthorizationRegistry

end Lycoris.Overlay
