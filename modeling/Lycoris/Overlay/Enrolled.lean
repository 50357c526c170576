import Lycoris.Lib.Lists
import Lycoris.Overlay.Enrollment
import Lycoris.Overlay.Merge

/-!
What a successful admission leaves in the registry. A new admission appended at the end of its
sponsor's chain changes no other node's standing, so the admitted node ends up active exactly when
it had no record yet; the check for that is made when the challenge is issued and not again when
the admission is signed.
-/

namespace Lycoris.Overlay
open Lib

namespace AuthorizationRegistry

variable {P : Primitives} {g : AuthorizationRegistry} {r s x signer head : AuthorizationRecord}
  {m n : NodeId}

/-! ### Nodes of a peer -/

/-- The node is active under this peer id. -/
def ActiveAs (g : AuthorizationRegistry) (n : NodeId) (peerId : Bytes) : Prop :=
  ∃ r, g.status n = .active r ∧ r.peerId = peerId

theorem mem_nodesForPeer (wf : WellFormed P g) (peer : P.PeerId) :
    n ∈ g.nodesForPeer P peer ↔ ActiveAs g n (P.peerIdToBytes peer) := by
  unfold nodesForPeer
  rw [List.mem_filterMap]
  constructor
  · rintro ⟨record, _, chosen⟩
    split at chosen
    · rename_i active answer
      split at chosen
      · rename_i peer'
        cases chosen
        have node := ((status_active wf).mp answer).1.node
        exact ⟨active, node ▸ answer, peer'⟩
      · cases chosen
    · cases chosen
  · rintro ⟨active, answer, peer'⟩
    have tip := ((status_active wf).mp answer).1
    refine ⟨active, KeyedMap.mem_vals.mpr tip.lineage.mem, ?_⟩
    rw [show active.nodeId = n from tip.node, answer]
    simp only [peer', if_true]
    rw [show active.nodeId = n from tip.node]

theorem nodeForPeer_eq_some (wf : WellFormed P g) {peer : P.PeerId} :
    g.nodeForPeer P peer = some n ↔ ActiveAs g n (P.peerIdToBytes peer) ∧
      ∀ m, ActiveAs g m (P.peerIdToBytes peer) → m = n := by
  have only : g.nodeForPeer P peer = some n ↔ (g.nodesForPeer P peer).dedup = [n] := by
    unfold nodeForPeer
    split
    · rename_i node single
      rw [single]
      simp
    · rename_i several
      simp only [reduceCtorEq, false_iff]
      exact several n
  rw [only, dedup_eq_singleton, mem_nodesForPeer wf peer]
  simp only [mem_nodesForPeer wf peer]

theorem activeRecordForNode_eq_some : g.activeRecordForNode n = some r ↔ g.status n = .active r := by
  unfold activeRecordForNode
  split
  · rename_i record answer
    rw [answer]
    simp
  · rename_i other
    simp only [reduceCtorEq, false_iff]
    exact other r

/-! ### Appending an admission -/

/-- A record that was not there yet is inserted only after it was validated. -/
theorem added_of_insert {inserted : Bool} {h : AuthorizationRegistry} (fresh : g.records.get? x.id = none)
    (inserts : g.insert P x = (.ok inserted, h)) : h = g.added x ∧ g.validate P x = .ok () := by
  rcases insert_cases (P := P) g x with ⟨known, _⟩ | ⟨_, _, _, kept⟩ | ⟨_, ok, kept⟩
  · exact absurd fresh known
  · cases kept.symm.trans inserts
  · cases kept.symm.trans inserts
    exact ⟨rfl, ok⟩

/-- `x` admits a node without records and comes right after the last action of `signer`. -/
structure Appends (g : AuthorizationRegistry) (x signer head : AuthorizationRecord) : Prop where
  fresh : g.records.get? x.id = none
  root : x.predecessor = none
  retires : x.retires = none
  authorizer : x.authorizer = some signer.id
  after : x.authorizationPredecessor = some head.id
  last : g.actionSuccessors signer.id head.id = []
  unknown : ∀ t ∈ g, t.nodeId ≠ x.nodeId

theorem Appends.acts (h : Appends g x signer head) {identity action : RecordId}
    (acts : actsAfter identity action x = true) : identity = signer.id ∧ action = head.id := by
  rcases actsAfter_iff.mp acts with ⟨named, after⟩ | retired
  · exact ⟨Option.some.inj (named.symm.trans h.authorizer), Option.some.inj (after.symm.trans h.after)⟩
  · exact absurd (h.retires.symm.trans retired) (by simp)

theorem Appends.actionSuccessors (h : Appends g x signer head) {identity action : RecordId}
    (only : g.actionSuccessors identity action = [r]) :
    (g.added x).actionSuccessors identity action = [r] := by
  obtain ⟨inside, acts, sole⟩ := actionSuccessors_eq_singleton.mp only
  refine actionSuccessors_eq_singleton.mpr ⟨(mem_added h.fresh).mpr (Or.inr inside), acts, fun t member acts' => ?_⟩
  rcases (mem_added h.fresh).mp member with rfl | old
  · obtain ⟨rfl, rfl⟩ := h.acts acts'
    exact absurd (h.last.symm.trans only) (by simp)
  · exact sole t old acts'

theorem Appends.roots (h : Appends g x signer head) (only : g.roots r.nodeId = [r]) :
    (g.added x).roots r.nodeId = [r] := by
  obtain ⟨inside, shape, sole⟩ := roots_eq_singleton.mp only
  refine roots_eq_singleton.mpr ⟨(mem_added h.fresh).mpr (Or.inr inside), shape, fun t member node start => ?_⟩
  rcases (mem_added h.fresh).mp member with rfl | old
  · exact absurd node.symm (h.unknown r inside)
  · exact sole t old node start

theorem Appends.children_eq (h : Appends g x signer head) (id : RecordId) {l : List AuthorizationRecord}
    (short : l = [] ∨ ∃ c, l = [c]) (only : g.children id = l) : (g.added x).children id = l := by
  have old : ∀ t ∈ g.added x, t.predecessor = some id → t ∈ g := by
    intro t member named
    rcases (mem_added h.fresh).mp member with rfl | old
    · exact absurd (h.root.symm.trans named) (by simp)
    · exact old
  rcases short with rfl | ⟨c, rfl⟩
  · exact children_eq_nil.mpr fun t member named => children_eq_nil.mp only t (old t member named) named
  · obtain ⟨inside, named, sole⟩ := children_eq_singleton.mp only
    exact children_eq_singleton.mpr ⟨(mem_added h.fresh).mpr (Or.inr inside), named,
      fun t member named' => sole t (old t member named') named'⟩

theorem Appends.leads (h : Appends g x signer head) {identity target current : RecordId}
    (leads : Leads g identity target current) : Leads (g.added x) identity target current := by
  induction leads with
  | last only here => exact .last (h.actionSuccessors only) here
  | step only continues _ ih => exact .step (h.actionSuccessors only) continues ih

theorem Appends.onPath (h : Appends g x signer head) {identity target : RecordId}
    (path : OnPath g identity target) : OnPath (g.added x) identity target :=
  path.imp_right h.leads

/-- Nothing loses trust by the new admission. -/
theorem Appends.trusts (h : Appends g x signer head) {j : Judgement} (trusted : Trusts g j) :
    Trusts (g.added x) j := by
  induction trusted with
  | unsigned none retires => exact .unsigned none fun t retired => h.onPath (retires t retired)
  | signed present named path active _ retires ih =>
    exact .signed ((mem_added h.fresh).mpr (Or.inr present)) named (h.onPath path) active ih
      fun t retired => h.onPath (retires t retired)
  | root only _ ih => exact .root (h.roots only) ih
  | child _ only _ before self => exact .child before (h.children_eq _ (Or.inr ⟨_, rfl⟩) only) self

theorem Appends.tip (h : Appends g x signer head) (tip : Tip g m r) : Tip (g.added x) m r :=
  ⟨tip.node, h.trusts tip.lineage, h.children_eq _ (Or.inl rfl) tip.last⟩

theorem Appends.tip_iff (h : Appends g x signer head) (wf : WellFormed P g) (other : m ≠ x.nodeId) :
    Tip (g.added x) m r ↔ Tip g m r := by
  refine ⟨fun tip => ?_, h.tip⟩
  rcases (mem_added h.fresh).mp tip.lineage.mem with rfl | inside
  · exact absurd tip.node.symm other
  · exact ⟨tip.node, tip.lineage.shrink wf (extends_added h.fresh) inside,
      (extends_added h.fresh).children_nil tip.last⟩

theorem Appends.leads_new (h : Appends g x signer head) {current : RecordId}
    (walk : Relation.ReflTransGen (Continues g signer.id) current head.id) :
    Leads (g.added x) signer.id x.id current := by
  induction walk using Relation.ReflTransGen.head_induction_on with
  | refl =>
    refine .last (actionSuccessors_eq_singleton.mpr ⟨mem_added_self h.fresh, ?_, fun t member acts => ?_⟩) rfl
    · exact actsAfter_iff.mpr (Or.inl ⟨h.authorizer, h.after⟩)
    · rcases (mem_added h.fresh).mp member with same | old
      · exact same
      · exact absurd acts (by rw [actionSuccessors_eq_nil.mp h.last t old]; simp)
  | head step _ ih =>
    obtain ⟨next, only, continues, rfl⟩ := step
    exact .step (h.actionSuccessors only) continues ih

/-- The new admission is the tip of its node. -/
theorem Appends.tip_new (h : Appends g x signer head) (wf : WellFormed P g) (present : signer ∈ g)
    (active : signer.state = .active) (lineage : EffectiveLineage g signer)
    (walk : Relation.ReflTransGen (Continues g signer.id) signer.id head.id) :
    Tip (g.added x) x.nodeId x := by
  have effective : Effective (g.added x) x :=
    .signed ((mem_added h.fresh).mpr (Or.inr present)) h.authorizer (Or.inr (h.leads_new walk)) active
      (h.trusts lineage) fun t retired => absurd (h.retires.symm.trans retired) (by simp)
  refine ⟨rfl, .root (roots_eq_singleton.mpr ⟨mem_added_self h.fresh, ⟨rfl, h.root⟩, ?_⟩) effective,
    children_eq_nil.mpr ?_⟩
  · intro t member node _
    rcases (mem_added h.fresh).mp member with same | old
    · exact same
    · exact absurd node (h.unknown t old)
  · intro t member named
    rcases (mem_added h.fresh).mp member with rfl | old
    · exact absurd (h.root.symm.trans named) (by simp)
    · obtain ⟨d, inside, same⟩ := (wf.accepted t old).dependency (predecessor_dependency named)
      exact KeyedMap.get?_eq_none.mp h.fresh d inside same

/-- A second root is a conflict. -/
theorem not_tip_of_second_root (wf : WellFormed P g) (fresh : g.records.get? x.id = none)
    (wf' : WellFormed P (g.added x)) (root : x.predecessor = none) (known : ∃ t ∈ g, t.nodeId = x.nodeId) :
    ∀ r, ¬ Tip (g.added x) x.nodeId r := by
  intro r tip
  obtain ⟨t, inside, node⟩ := known
  obtain ⟨first, member, start, same, _⟩ := wf.exists_root inside
  obtain ⟨only, single⟩ := tip.lineage.sole_root wf'
  rw [tip.node] at single
  obtain ⟨_, _, sole⟩ := roots_eq_singleton.mp single
  have left := sole first ((mem_added fresh).mpr (Or.inr member)) (same.trans node) start
  have right := sole x (mem_added_self fresh) rfl root
  exact KeyedMap.get?_eq_none.mp fresh first member (by rw [left, right])

end AuthorizationRegistry

namespace EnrollmentCall
variable {P : Primitives}

def sponsor : EnrollmentCall P → Option (NodeIdentity P)
  | .begin _ _ sponsor _ => some sponsor
  | .enroll _ _ sponsor => some sponsor
  | .approve _ sponsor => some sponsor
  | .mergeCheckpoint _ => none

end EnrollmentCall

namespace Enrollment
open AuthorizationRegistry

variable {P : Primitives} {A : AdmissionPrimitives} {e e' : Enrollment} {n : NodeId}
  {sponsor : NodeIdentity P} {outcome : EnrollmentOutcome}

theorem ensureSponsor_ok {record : AuthorizationRecord} (h : e.ensureSponsor sponsor = .ok record) :
    e.registry.status sponsor.nodeId = .active record := by
  unfold ensureSponsor at h
  obtain ⟨_, _, h⟩ := bind_ok.mp h
  obtain ⟨active, found, h⟩ := bind_ok.mp h
  obtain ⟨_, _, h⟩ := bind_ok.mp h
  cases h
  exact activeRecordForNode_eq_some.mp (okOr_ok.mp found)

theorem admitIdentity_body {cluster : ClusterId} {identity : PublicIdentity}
    {signer head record : AuthorizationRecord}
    (h : AuthorizationRecord.admitIdentity cluster identity signer head sponsor = .ok record) :
    record.body = (AuthorizationBody.active cluster identity 0 .admission).setAuthorizer signer head := by
  unfold AuthorizationRecord.admitIdentity AuthorizationRecord.sign at h
  obtain ⟨_, _, h⟩ := bind_ok.mp h
  obtain ⟨_, _, h⟩ := bind_ok.mp h
  obtain ⟨_, _, h⟩ := bind_ok.mp h
  cases h
  rfl

/-- The claim of a successful admission: the node is active with the outcome's record, it is the
only node of its peer, and the sponsor is still active. -/
structure Enrolled (P : Primitives) (g : AuthorizationRegistry) (n : NodeId) (peer : P.PeerId)
    (sponsor : NodeId) (outcome : EnrollmentOutcome) : Prop where
  active : g.status n = .active outcome.record
  peer : g.nodeForPeer P peer = some n
  sponsor : ∃ r, g.status sponsor = .active r

/-- What the state before the admission has to be for that. -/
structure Clear (e : Enrollment) (n : NodeId) (pending : PendingAdmission) : Prop where
  unknown : pending.resumeRecord ≠ none ∨ e.registry.status n = .unknown
  sole : ∀ m, ActiveAs e.registry m pending.candidate.identity.peerId → m = n

theorem peerId_of_matches {record : AuthorizationRecord} {identity : PublicIdentity}
    (fits : recordMatchesIdentity record identity = true) : record.peerId = identity.peerId := by
  simp only [recordMatchesIdentity, Bool.and_eq_true, decide_eq_true_eq] at fits
  exact fits.1.1.2

theorem enrolled_resumed {pending : PendingAdmission} {record sponsorRecord : AuthorizationRecord}
    {peer : P.PeerId} (wf : WellFormed P e.registry)
    (sponsored : e.ensureSponsor sponsor = .ok sponsorRecord)
    (resumes : pending.resumeRecord = some record.id)
    (active : e.registry.activeRecordForNode n = some record)
    (fits : recordMatchesIdentity record pending.candidate.identity = true)
    (bytes : P.peerIdToBytes peer = pending.candidate.identity.peerId) (records : List AuthorizationRecord) :
    Enrolled P e.registry n peer sponsor.nodeId ⟨record, records⟩ ↔ Clear e n pending := by
  have status := activeRecordForNode_eq_some.mp active
  have here : ActiveAs e.registry n (P.peerIdToBytes peer) :=
    ⟨record, status, by rw [bytes, peerId_of_matches fits]⟩
  constructor
  · intro h
    refine ⟨Or.inl (by simp [resumes]), fun m other => ?_⟩
    rw [← bytes] at other
    exact ((nodeForPeer_eq_some wf).mp h.peer).2 m other
  · intro h
    refine ⟨status, (nodeForPeer_eq_some wf).mpr ⟨here, fun m other => ?_⟩, _, ensureSponsor_ok sponsored⟩
    rw [bytes] at other
    exact h.sole m other

theorem appends_of_unknown {pending : PendingAdmission} {sponsorRecord head record : AuthorizationRecord}
    (wf : WellFormed P e.registry) (node : pending.nodeId = n)
    (last : e.registry.authorizerHead sponsorRecord = .ok head)
    (signed : AuthorizationRecord.admitIdentity e.registry.clusterId pending.candidate.identity
      sponsorRecord head sponsor = .ok record)
    (fresh : e.registry.records.get? record.id = none) (unknown : e.registry.status n = .unknown) :
    Appends e.registry record sponsorRecord head := by
  have body := admitIdentity_body signed
  refine ⟨fresh, by rw [AuthorizationRecord.predecessor, body]; rfl,
    by rw [AuthorizationRecord.retires, body]; rfl, by rw [AuthorizationRecord.authorizer, body]; rfl,
    by rw [AuthorizationRecord.authorizationPredecessor, body]; rfl, (authorizerHead_ok wf last).2.1, ?_⟩
  have same : record.nodeId = n := by rw [AuthorizationRecord.nodeId, body]; exact node
  rw [same]
  exact (status_unknown wf).mp unknown

/-- Nothing in the registry comes after the sponsor's last action, so the new admission is new. -/
theorem admission_fresh {pending : PendingAdmission} {sponsorRecord head record : AuthorizationRecord}
    (wf : WellFormed P e.registry) (last : e.registry.authorizerHead sponsorRecord = .ok head)
    (signed : AuthorizationRecord.admitIdentity e.registry.clusterId pending.candidate.identity
      sponsorRecord head sponsor = .ok record)
    (separate : IdsSeparate e.registry [record]) : e.registry.records.get? record.id = none := by
  refine KeyedMap.get?_eq_none.mpr fun t inside same => ?_
  have equal := separate t (Or.inl inside) record (Or.inr (List.mem_singleton_self record)) same
  have body := admitIdentity_body signed
  have acts : actsAfter sponsorRecord.id head.id t = true := by
    rw [equal]
    exact actsAfter_iff.mpr (Or.inl ⟨by rw [AuthorizationRecord.authorizer, body]; rfl,
      by rw [AuthorizationRecord.authorizationPredecessor, body]; rfl⟩)
  exact absurd acts (by rw [actionSuccessors_eq_nil.mp (authorizerHead_ok wf last).2.1 t inside]; simp)

theorem enrolled_fresh {pending : PendingAdmission} {sponsorRecord head record : AuthorizationRecord}
    {inserted : Bool} {registry : AuthorizationRegistry} {peer : P.PeerId}
    (wf : WellFormed P e.registry) (node : pending.nodeId = n)
    (sponsored : e.ensureSponsor sponsor = .ok sponsorRecord) (new : pending.resumeRecord = none)
    (last : e.registry.authorizerHead sponsorRecord = .ok head)
    (signed : AuthorizationRecord.admitIdentity e.registry.clusterId pending.candidate.identity
      sponsorRecord head sponsor = .ok record)
    (inserts : e.registry.insert P record = (.ok inserted, registry))
    (separate : IdsSeparate e.registry [record])
    (bytes : P.peerIdToBytes peer = pending.candidate.identity.peerId) (records : List AuthorizationRecord) :
    Enrolled P registry n peer sponsor.nodeId ⟨record, records⟩ ↔ Clear e n pending := by
  have fresh := admission_fresh wf last signed separate
  have body := admitIdentity_body signed
  have same : record.nodeId = n := by rw [AuthorizationRecord.nodeId, body]; exact node
  have peerId : record.peerId = P.peerIdToBytes peer := by
    rw [AuthorizationRecord.peerId, body, bytes]
    rfl
  obtain ⟨sponsorTip, sponsorActive⟩ := (status_active wf).mp (ensureSponsor_ok sponsored)
  obtain ⟨rfl, ok⟩ := added_of_insert fresh inserts
  have wf' := wellFormed_added wf fresh ok
  constructor
  · intro h
    have tip := ((status_active wf').mp h.active).1
    have unknown : e.registry.status n = .unknown := by
      rw [status_unknown wf]
      intro t inside known
      exact not_tip_of_second_root wf fresh wf' (by rw [AuthorizationRecord.predecessor, body]; rfl)
        ⟨t, inside, known.trans same.symm⟩ record (same ▸ tip)
    refine ⟨Or.inr unknown, fun m other => ?_⟩
    obtain ⟨r, active, as⟩ := other
    have appends := appends_of_unknown wf node last signed fresh unknown
    obtain ⟨tip', state⟩ := (status_active wf).mp active
    exact ((nodeForPeer_eq_some wf').mp h.peer).2 m
      ⟨r, (status_active wf').mpr ⟨appends.tip tip', state⟩, as.trans bytes.symm⟩
  · intro h
    have unknown := h.unknown.resolve_left (by simp [new])
    have appends := appends_of_unknown wf node last signed fresh unknown
    have tip : Tip (e.registry.added record) n record := same ▸ appends.tip_new wf sponsorTip.lineage.mem
      sponsorActive sponsorTip.lineage (authorizerHead_ok wf last).2.2
    have state : record.state = .active := by rw [AuthorizationRecord.state, body]; rfl
    have active := (status_active wf').mpr ⟨tip, state⟩
    refine ⟨active, (nodeForPeer_eq_some wf').mpr ⟨⟨record, active, peerId⟩, fun m other => ?_⟩, sponsorRecord,
      (status_active wf').mpr ⟨appends.tip sponsorTip, sponsorActive⟩⟩
    obtain ⟨r, active', as⟩ := other
    by_cases own : m = n
    · exact own
    · obtain ⟨tip', state'⟩ := (status_active wf').mp active'
      have before := (appends.tip_iff wf (same ▸ own)).mp tip'
      exact h.sole m ⟨r, (status_active wf).mpr ⟨before, state'⟩, as.trans bytes⟩

/-- A call that reports an admission made it. -/
theorem serve_admits {call : EnrollmentCall P} (about : call.nodeId = some n)
    (by_sponsor : call.sponsor = some sponsor) (admitted : (e.serve A call).1 = .admitted outcome) :
    Admits e n sponsor outcome (e.serve A call).2 := by
  have served := serve_served A e call
  rw [admitted] at served
  revert served
  generalize (e.serve A call).2 = after
  intro served
  cases served with
  | enrolled _ admits => cases about; cases by_sponsor; exact admits
  | approved admits => cases about; cases by_sponsor; exact admits

theorem Admits.enrolled_iff (admits : Admits e n sponsor outcome e') (wf : WellFormed P e.registry)
    {pending : PendingAdmission} {peer : P.PeerId} (found : e.quarantined.get? n = some pending)
    (bytes : P.peerIdToBytes peer = pending.candidate.identity.peerId)
    (separate : IdsSeparate e.registry [outcome.record]) :
    Enrolled P e'.registry n peer sponsor.nodeId outcome ↔ Clear e n pending := by
  cases admits with
  | resumed found' _ sponsored resumes active fits =>
    cases found.symm.trans found'
    exact enrolled_resumed wf sponsored resumes active fits bytes _
  | fresh found' _ sponsored new last signed inserts =>
    cases found.symm.trans found'
    exact enrolled_fresh wf (KeyedMap.key_of_get? found) sponsored new last signed inserts separate bytes _

/-- In every reachable enrollment a successful admission leaves its node active, alone under its
peer and its sponsor active exactly when the node resumes its record or has none yet, and no other
node is active under the candidate's peer. -/
theorem enrollment_yields_active_node (P : Primitives) (A : AdmissionPrimitives) (cluster : ClusterId)
    (start : List RegistryCall) (joinKey : Option Bytes) (calls : List (EnrollmentCall P))
    (call : EnrollmentCall P) (n : NodeId) (sponsor : NodeIdentity P) (pending : PendingAdmission)
    (peer : P.PeerId) (outcome : EnrollmentOutcome)
    (about : call.nodeId = some n) (by_sponsor : call.sponsor = some sponsor)
    (found : ((Enrollment.new ((AuthorizationRegistry.new cluster).replay P start) joinKey).run A
      calls).quarantined.get? n = some pending)
    (bytes : P.peerIdToBytes peer = pending.candidate.identity.peerId)
    (admitted : (((Enrollment.new ((AuthorizationRegistry.new cluster).replay P start) joinKey).run A
      calls).serve A call).1 = .admitted outcome)
    (separate : IdsSeparate ((Enrollment.new ((AuthorizationRegistry.new cluster).replay P start)
      joinKey).run A calls).registry [outcome.record]) :
    let e := (Enrollment.new ((AuthorizationRegistry.new cluster).replay P start) joinKey).run A calls
    Enrolled P (e.serve A call).2.registry n peer sponsor.nodeId outcome ↔ Clear e n pending := by
  intro e
  have wf : WellFormed P e.registry := (run_grows calls).wellFormed (wellFormed_replay cluster start)
  have admits := serve_admits about by_sponsor admitted
  exact admits.enrolled_iff wf found bytes separate

section Member
open Transparent

def pendingMember : PendingAdmission := ⟨memberCandidate, memberChallenge, founder.nodeId, none⟩

theorem member_clear : Clear (sponsoring.run admissionPrimitives [beginMember]) member.nodeId pendingMember := by
  have wf : WellFormed primitives (sponsoring.run admissionPrimitives [beginMember]).registry :=
    (run_grows [beginMember]).wellFormed (wellFormed_replay cluster [.insert founding])
  refine ⟨Or.inr (by decide +kernel), fun m active => ?_⟩
  have none : (sponsoring.run admissionPrimitives [beginMember]).registry.nodesForPeer primitives
      member.peerId = [] := by decide +kernel
  have listed := (mem_nodesForPeer wf member.peerId).mpr active
  rw [none] at listed
  cases listed

theorem member_enrolled :
    Enrolled primitives
      (((sponsoring.run admissionPrimitives [beginMember]).serve admissionPrimitives enrollMember).2).registry
      member.nodeId member.peerId founder.nodeId ⟨admission, [admission, founding]⟩ :=
  (enrollment_yields_active_node primitives admissionPrimitives cluster [.insert founding] (some Transparent.joinKey)
    [beginMember] enrollMember member.nodeId founder pendingMember member.peerId
    ⟨admission, [admission, founding]⟩ rfl rfl (by decide +kernel) rfl (by decide +kernel)
    (idsSeparate_of_vals (by decide +kernel))).mpr member_clear

/-- The admission the founder signs for a member it has learned of since the challenge. -/
def lateAdmission : AuthorizationRecord :=
  signed ((AuthorizationBody.active cluster member.publicIdentity 0 .admission).setAuthorizer
    founding admission) founder

theorem checkpoint_spoils_admission :
    let e := sponsoring.run admissionPrimitives [beginMember, .mergeCheckpoint [admission]]
    let g := (e.serve admissionPrimitives enrollMember).2.registry
    e.registry.status member.nodeId = .active admission ∧
    (e.serve admissionPrimitives enrollMember).1 = .admitted ⟨lateAdmission, g.records.vals⟩ ∧
    Conflicted g member.nodeId ∧
    ¬ Enrolled primitives g member.nodeId member.peerId founder.nodeId ⟨lateAdmission, g.records.vals⟩ := by
  intro e g
  have conflict : g.status member.nodeId = .conflicted (ids (g.roots member.nodeId)) := by decide +kernel
  refine ⟨by decide +kernel, by decide +kernel, ⟨_, conflict⟩, fun enrolled => ?_⟩
  exact absurd (conflict.symm.trans enrolled.active) (by simp)

end Member

end Enrollment

end Lycoris.Overlay
