import Lycoris.Overlay.Lookup
import Lycoris.Overlay.Restart

/-!
A candidate that joins through a sponsor (`overlay/src/admission.rs`, `daemon/src/overlay.rs`). The sponsor
admits on what it found when it issued the challenge; the joiner checks the registry it is sent. The joiner's
checks make up for those the sponsor leaves out: it adopts the sponsor's registry exactly where the admission
left the candidate active.
-/

namespace Lycoris.Overlay
open Lib

namespace Enrollment
open AuthorizationRegistry

variable {P : Primitives} {A : AdmissionPrimitives} {e e' : Enrollment} {n : NodeId} {sponsor : NodeIdentity P}
  {outcome : EnrollmentOutcome}

/-! ### Challenges -/

/-- The challenge names the cluster and the sponsor, and the candidate came in under a peer id of its own. -/
structure Challenged (e : Enrollment) (sponsor : NodeIdentity P) (pending : PendingAdmission) : Prop where
  cluster : pending.challenge.clusterId = e.registry.clusterId
  node : pending.challenge.sponsorNodeId = sponsor.nodeId
  peer : pending.challenge.sponsorPeerId = P.peerIdToBytes sponsor.peerId
  candidate : ∃ peer : P.PeerId, P.peerIdToBytes peer = pending.candidate.identity.peerId

theorem challenged_of_prepare {candidate : AdmissionCandidate} {peer : P.PeerId} {nonce : Option Nonce}
    {pending : PendingAdmission} (h : e.prepare candidate peer sponsor nonce = .ok pending) :
    Challenged e sponsor pending := by
  unfold prepare at h
  obtain ⟨_, _, h⟩ := bind_ok.mp h
  obtain ⟨_, authenticated, h⟩ := bind_ok.mp h
  obtain ⟨_, _, h⟩ := bind_ok.mp h
  obtain ⟨_, _, h⟩ := bind_ok.mp h
  obtain ⟨_, _, h⟩ := bind_ok.mp h
  cases h
  exact ⟨rfl, rfl, rfl, peer, (ensure_ok.mp authenticated).symm⟩

/-- A node serves all calls under its own identity, so it is the sponsor of all of them. -/
def ServedAs (sponsor : NodeIdentity P) (calls : List (EnrollmentCall P)) : Prop :=
  ∀ call ∈ calls, ∀ other, call.sponsor = some other → other = sponsor

theorem servedAs_nil : ServedAs sponsor ([] : List (EnrollmentCall P)) :=
  fun _ member => absurd member List.not_mem_nil

theorem servedAs_cons {call : EnrollmentCall P} {calls : List (EnrollmentCall P)} :
    ServedAs sponsor (call :: calls) ↔
      (∀ other, call.sponsor = some other → other = sponsor) ∧ ServedAs sponsor calls :=
  List.forall_mem_cons

theorem challenged_serve {call : EnrollmentCall P} (own : ∀ other, call.sponsor = some other → other = sponsor)
    (before : ∀ n pending, e.quarantined.get? n = some pending → Challenged e sponsor pending) :
    ∀ n pending, (e.serve A call).2.quarantined.get? n = some pending →
      Challenged (e.serve A call).2 sponsor pending := by
  intro n pending found
  have served := serve_served A e call
  have kept : (e.serve A call).2.registry.clusterId = e.registry.clusterId := served.registry.extends.cluster
  have challenged : Challenged e sponsor pending := by
    rcases served.found found with ⟨old, _⟩ | ⟨candidate, peer, other, nonce, rfl, ok⟩
    · exact before n pending old
    · obtain rfl := own other rfl
      exact challenged_of_prepare ok
  exact { challenged with cluster := challenged.cluster.trans kept.symm }

theorem challenged_run {calls : List (EnrollmentCall P)} (own : ServedAs sponsor calls)
    (before : ∀ n pending, e.quarantined.get? n = some pending → Challenged e sponsor pending) :
    ∀ n pending, (e.run A calls).quarantined.get? n = some pending →
      Challenged (e.run A calls) sponsor pending := by
  induction calls generalizing e with
  | nil => exact before
  | cons call rest ih =>
    obtain ⟨first, others⟩ := servedAs_cons.mp own
    exact ih others (challenged_serve first before)

/-! ### What the joiner checks -/

theorem ensureSponsor_peer {record : AuthorizationRecord} (h : e.ensureSponsor sponsor = .ok record) :
    e.registry.activePeerForNode P sponsor.nodeId = some sponsor.peerId := by
  unfold ensureSponsor at h
  obtain ⟨peerId, found, _⟩ := bind_ok.mp h
  obtain ⟨named, same⟩ := Option.filter_eq_some_iff.mp (okOr_ok.mp found)
  rw [named, of_decide_eq_true same]

/-- The joiner's checks on a checkpoint that is the sponsor's whole registry. -/
theorem validateFor_checkpoint {g adopted : AuthorizationRegistry} (wf : WellFormed P g) (valid : Valid P g)
    (inverts : ∀ p, P.peerIdFromBytes (P.peerIdToBytes p) = some p) (records : outcome.records = g.records.vals)
    (present : outcome.record ∈ g) {candidate : AdmissionCandidate} {challenge : AdmissionChallenge}
    {sponsorPeer peer : P.PeerId} (cluster : challenge.clusterId = g.clusterId)
    (bytes : challenge.sponsorPeerId = P.peerIdToBytes sponsorPeer)
    (fits : recordMatchesIdentity outcome.record candidate.identity = true)
    (own : candidate.identity.peerId = P.peerIdToBytes peer) :
    outcome.validateFor P candidate challenge sponsorPeer = .ok adopted ↔
      adopted = g ∧ g.nodeForPeer P sponsorPeer = some challenge.sponsorNodeId ∧
      g.status candidate.identity.nodeId = .active outcome.record ∧
      g.nodeForPeer P peer = some candidate.identity.nodeId := by
  have built : fromRecords P challenge.clusterId outcome.records = .ok g := by
    rw [cluster, records]
    exact fromRecords_all wf valid (List.Perm.refl _)
  unfold EnrollmentOutcome.validateFor
  rw [built]
  constructor
  · intro checked
    obtain ⟨_, _, checked⟩ := bind_ok.mp checked
    obtain ⟨registry, same, checked⟩ := bind_ok.mp checked
    cases liftAuthorization_ok.mp same
    obtain ⟨node, found, checked⟩ := bind_ok.mp checked
    obtain ⟨_, named, checked⟩ := bind_ok.mp checked
    obtain ⟨active, listed, checked⟩ := bind_ok.mp checked
    obtain ⟨activePeer, lead, checked⟩ := bind_ok.mp checked
    obtain ⟨_, agree, checked⟩ := bind_ok.mp checked
    cases checked
    obtain ⟨id, _, peerBytes⟩ := ensure_ok.mp agree
    have status := activeRecordForNode_eq_some.mp (okOr_ok.mp listed)
    have inside := ((status_active wf).mp status).1.lineage.mem
    have record : active = outcome.record := KeyedMap.eq_of_key inside present id
    have samePeer : activePeer = peer := by
      have back := congrArg P.peerIdFromBytes (peerBytes.trans own)
      rw [inverts, inverts] at back
      exact Option.some.inj back
    refine ⟨rfl, ?_, record ▸ status, ?_⟩
    · rw [okOr_ok.mp found, ensure_ok.mp named]
    · exact samePeer ▸ (activePeerForNode_iff wf inverts).mp (okOr_ok.mp lead)
  · rintro ⟨rfl, sponsored, status, lead⟩
    refine bind_ok.mpr ⟨(), ensure_ok.mpr bytes, ?_⟩
    refine bind_ok.mpr ⟨adopted, rfl, ?_⟩
    refine bind_ok.mpr ⟨_, okOr_ok.mpr sponsored, ?_⟩
    refine bind_ok.mpr ⟨(), ensure_ok.mpr rfl, ?_⟩
    refine bind_ok.mpr ⟨_, okOr_ok.mpr (activeRecordForNode_eq_some.mpr status), ?_⟩
    refine bind_ok.mpr ⟨peer, okOr_ok.mpr ((activePeerForNode_iff wf inverts).mpr lead), ?_⟩
    exact bind_ok.mpr ⟨(), ensure_ok.mpr ⟨rfl, fits, own.symm⟩, rfl⟩

/-! ### What the sponsor leaves -/

theorem recordMatchesIdentity_admitted {cluster : ClusterId} {identity : PublicIdentity}
    {signer head record : AuthorizationRecord}
    (signed : AuthorizationRecord.admitIdentity cluster identity signer head sponsor = .ok record) :
    recordMatchesIdentity record identity = true := by
  have body := admitIdentity_body signed
  simp only [recordMatchesIdentity, AuthorizationRecord.nodeId, AuthorizationRecord.peerId,
    AuthorizationRecord.publicKey, AuthorizationRecord.initialPublicKey, body]
  simp [AuthorizationBody.setAuthorizer, AuthorizationBody.active]

/-- The record of an outcome is in the registry that is left, and is the candidate's. -/
theorem Admits.record (admits : Admits e n sponsor outcome e') (wf : WellFormed P e.registry)
    {pending : PendingAdmission} (found : e.quarantined.get? n = some pending)
    (separate : IdsSeparate e.registry [outcome.record]) :
    outcome.record ∈ e'.registry ∧ recordMatchesIdentity outcome.record pending.candidate.identity = true := by
  cases admits with
  | resumed found' _ _ _ active fits =>
    cases found.symm.trans found'
    exact ⟨((status_active wf).mp (activeRecordForNode_eq_some.mp active)).1.lineage.mem, fits⟩
  | fresh found' _ _ _ last signed inserts =>
    cases found.symm.trans found'
    refine ⟨?_, recordMatchesIdentity_admitted signed⟩
    have fresh := admission_fresh wf last signed separate
    obtain ⟨rfl, _⟩ := added_of_insert fresh inserts
    exact mem_added_self fresh

theorem Admits.records (admits : Admits e n sponsor outcome e') : outcome.records = e'.registry.records.vals := by
  cases admits <;> rfl

/-- The sponsor is still found under its peer after a clear admission. -/
theorem Admits.sponsorPeer (admits : Admits e n sponsor outcome e') (wf : WellFormed P e.registry)
    (wf' : WellFormed P e'.registry) {pending : PendingAdmission} (found : e.quarantined.get? n = some pending)
    (separate : IdsSeparate e.registry [outcome.record]) (clear : Clear e n pending)
    (active : e'.registry.status n = .active outcome.record) :
    e'.registry.nodeForPeer P sponsor.peerId = some sponsor.nodeId := by
  have fits := (admits.record wf found separate).2
  cases admits with
  | resumed _ _ sponsored =>
    obtain ⟨_, _, _, back⟩ := activePeerForNode_eq_some.mp (ensureSponsor_peer sponsored)
    exact back
  | @fresh _ sponsorRecord head record _ _ found' _ sponsored new last signed inserts =>
    cases found.symm.trans found'
    have node : pending.nodeId = n := KeyedMap.key_of_get? found
    have fresh := admission_fresh wf last signed separate
    have unknown := clear.unknown.resolve_left (by simp [new])
    have appends := appends_of_unknown wf node last signed fresh unknown
    have same : record.nodeId = n := ((status_active wf').mp active).1.node
    obtain ⟨_, _, _, back⟩ := activePeerForNode_eq_some.mp (ensureSponsor_peer sponsored)
    obtain ⟨⟨lead, standing, bytes⟩, sole⟩ := (nodeForPeer_eq_some wf).mp back
    obtain ⟨tip, state⟩ := (status_active wf).mp standing
    obtain ⟨rfl, _⟩ := added_of_insert fresh inserts
    refine (nodeForPeer_eq_some wf').mpr ⟨⟨lead, (status_active wf').mpr ⟨appends.tip tip, state⟩, bytes⟩, ?_⟩
    rintro m ⟨other, status', bytes'⟩
    by_cases own : m = n
    · -- The candidate would have the sponsor's peer id, under which the sponsor was active.
      have equal : other = record := by
        rw [own, active] at status'
        exact (AuthorizationStatus.active.inj status').symm
      have shared : lead.peerId = pending.candidate.identity.peerId := by
        rw [bytes, ← bytes', equal, peerId_of_matches fits]
      exact own.trans (clear.sole sponsor.nodeId ⟨lead, standing, shared⟩).symm
    · obtain ⟨tip', state'⟩ := (status_active wf').mp status'
      have before := (appends.tip_iff wf (same ▸ own)).mp tip'
      exact sole m ⟨other, (status_active wf).mpr ⟨before, state'⟩, bytes'⟩

/-- In every reachable enrollment of a node that is the sponsor of all its calls, whoever is admitted adopts
the sponsor's registry, and no other, exactly where the admission is clear. The joiner's candidate and
challenge are those of the pending admission: `enroll_with_join_key` has compared them with its proof. -/
theorem joiner_adopts_iff (P : Primitives) (A : AdmissionPrimitives) (cluster : ClusterId)
    (start : List RegistryCall) (joinKey : Option Bytes) (calls : List (EnrollmentCall P))
    (call : EnrollmentCall P) (n : NodeId) (sponsor : NodeIdentity P) (pending : PendingAdmission)
    (outcome : EnrollmentOutcome) (adopted : AuthorizationRegistry)
    (inverts : ∀ p, P.peerIdFromBytes (P.peerIdToBytes p) = some p) (own : ServedAs sponsor calls)
    (about : call.nodeId = some n) (by_sponsor : call.sponsor = some sponsor)
    (found : ((Enrollment.new ((AuthorizationRegistry.new cluster).replay P start) joinKey).run A
      calls).quarantined.get? n = some pending)
    (admitted : (((Enrollment.new ((AuthorizationRegistry.new cluster).replay P start) joinKey).run A
      calls).serve A call).1 = .admitted outcome)
    (separate : IdsSeparate ((Enrollment.new ((AuthorizationRegistry.new cluster).replay P start)
      joinKey).run A calls).registry [outcome.record]) :
    let e := (Enrollment.new ((AuthorizationRegistry.new cluster).replay P start) joinKey).run A calls
    outcome.validateFor P pending.candidate pending.challenge sponsor.peerId = .ok adopted ↔
      adopted = (e.serve A call).2.registry ∧ Clear e n pending := by
  intro e
  have wf : WellFormed P e.registry := (run_grows calls).wellFormed (wellFormed_replay cluster start)
  have valid : Valid P e.registry := (run_grows calls).valid (valid_replay cluster start)
  have grows := (serve_served A e call).registry
  have wf' := grows.wellFormed wf
  have admits := serve_admits about by_sponsor admitted
  have challenged := challenged_run own (fun m other there => by cases (new_empty _ joinKey m).symm.trans there)
    n pending found
  obtain ⟨peer, bytes⟩ := challenged.candidate
  have enrolled := admits.enrolled_iff wf found bytes separate
  obtain ⟨present, fits⟩ := admits.record wf found separate
  have node : pending.candidate.identity.nodeId = n := show pending.nodeId = n from KeyedMap.key_of_get? found
  rw [validateFor_checkpoint wf' (grows.valid valid) inverts admits.records present
    (challenged.cluster.trans grows.extends.cluster.symm) challenged.peer fits bytes.symm, node, challenged.node]
  constructor
  · rintro ⟨same, sponsored, active, lead⟩
    obtain ⟨⟨r, standing, _⟩, _⟩ := (nodeForPeer_eq_some wf').mp sponsored
    exact ⟨same, enrolled.mp ⟨active, lead, r, standing⟩⟩
  · rintro ⟨same, clear⟩
    have done := enrolled.mpr clear
    exact ⟨same, admits.sponsorPeer wf wf' found separate clear done.active, done.active, done.peer⟩

section Member
open Transparent

/-- The member adopts the founder's registry. Where the founder has learned of another admission since the
challenge it still admits, but the member refuses what it is sent. -/
theorem member_adopts :
    let e := sponsoring.run admissionPrimitives [beginMember]
    let late := sponsoring.run admissionPrimitives [beginMember, .mergeCheckpoint [admission]]
    let spoiled := (late.serve admissionPrimitives enrollMember).2.registry
    (EnrollmentOutcome.mk admission [admission, founding]).validateFor primitives memberCandidate
        memberChallenge founder.peerId = .ok (e.serve admissionPrimitives enrollMember).2.registry ∧
      ∀ adopted, (EnrollmentOutcome.mk lateAdmission spoiled.records.vals).validateFor primitives
        memberCandidate memberChallenge founder.peerId ≠ .ok adopted := by
  intro e late spoiled
  have begun : ∀ {calls}, ServedAs founder calls → ServedAs founder (beginMember :: calls) := fun rest =>
    servedAs_cons.mpr ⟨fun _ same => (Option.some.inj same).symm, rest⟩
  have merged : ServedAs founder [EnrollmentCall.mergeCheckpoint (P := primitives) [admission]] :=
    servedAs_cons.mpr ⟨fun _ same => (by cases same), servedAs_nil⟩
  constructor
  · exact (joiner_adopts_iff primitives admissionPrimitives cluster [.insert founding] (some Transparent.joinKey)
      [beginMember] enrollMember member.nodeId founder pendingMember ⟨admission, [admission, founding]⟩ _
      (fun _ => rfl) (begun servedAs_nil) rfl rfl (by decide +kernel) (by decide +kernel)
      (idsSeparate_of_vals (by decide +kernel))).mpr ⟨rfl, member_clear⟩
  · intro adopted accepted
    have clear := ((joiner_adopts_iff primitives admissionPrimitives cluster [.insert founding]
      (some Transparent.joinKey) [beginMember, .mergeCheckpoint [admission]] enrollMember member.nodeId founder
      pendingMember ⟨lateAdmission, spoiled.records.vals⟩ adopted (fun _ => rfl) (begun merged) rfl rfl
      (by decide +kernel) (by decide +kernel) (idsSeparate_of_vals (by decide +kernel))).mp accepted).2
    have known : late.registry.status member.nodeId = .active admission := by decide +kernel
    have unknown : late.registry.status member.nodeId = .unknown :=
      clear.unknown.resolve_left (by simp [pendingMember])
    exact absurd (known.symm.trans unknown) (by simp)

end Member

end Enrollment

end Lycoris.Overlay
